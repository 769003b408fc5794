import DHCPServer.Packet.OptionParse

namespace DHCPServer

/-- `sizeof(dhcp_packet_t)`; the struct has no padding, so its image is the datagram. -/
def packetSize : Nat := 576

/-- Offset of the options field in the packet. -/
def optionsOffset : Nat := 240

/-- `CHADDR_LEN` -/
def chaddrLen : Nat := 18

def magicCookie : UInt32 := 0x63825363

-- Values of `enum dhcp_message_type`. The variable of that type holds whatever number the
-- client puts into option 53.
namespace MsgType

def discover : UInt32 := 1
def offer : UInt32 := 2
def request : UInt32 := 3
def decline : UInt32 := 4
def ack : UInt32 := 5
def nak : UInt32 := 6
def release : UInt32 := 7
def inform : UInt32 := 8

end MsgType

/-- `BOOTREPLY` -/
def bootReply : UInt8 := 2

/-- `dhcp_message_t`: the raw packet and what is parsed from it. Option lists are values here:
a copy of a message keeps the list it was copied with. -/
structure Message where
  packet : Buffer packetSize
  type : UInt32
  opcode : UInt8
  htype : UInt8
  hlen : UInt8
  hops : UInt8
  xid : UInt32
  secs : UInt16
  flags : UInt16
  ciaddr : UInt32
  yiaddr : UInt32
  siaddr : UInt32
  giaddr : UInt32
  chaddr : Buffer chaddrLen
  sname : Buffer 64
  filename : Buffer 128
  cookie : UInt32
  dhcpOptions : List DhcpOption
  time : UInt32
  deriving DecidableEq

attribute [ext] Message

namespace Message

def setPacket (m : Message) (packet : Buffer packetSize) : Message := { m with packet := packet }

def setOptions (m : Message) (options : List DhcpOption) : Message :=
  { m with dhcpOptions := options }

def setType (m : Message) (type : UInt32) : Message := { m with type := type }

def setTime (m : Message) (time : UInt32) : Message := { m with time := time }

end Message

/-- `dhcp_message_new`: `calloc` and an empty option list. -/
def dhcpMessageNew : Message where
  packet := Buffer.zero packetSize
  type := 0
  opcode := 0
  htype := 0
  hlen := 0
  hops := 0
  xid := 0
  secs := 0
  flags := 0
  ciaddr := 0
  yiaddr := 0
  siaddr := 0
  giaddr := 0
  chaddr := Buffer.zero chaddrLen
  sname := Buffer.zero 64
  filename := Buffer.zero 128
  cookie := 0
  dhcpOptions := []
  time := 0

/-- `ntohs` and `ntohl` of the field at an offset. -/
def field16 (p : Buffer packetSize) (off : Nat) : UInt16 := be16 (p.get off) (p.get (off + 1))

def field32 (p : Buffer packetSize) (off : Nat) : UInt32 :=
  be32 (p.get off) (p.get (off + 1)) (p.get (off + 2)) (p.get (off + 3))

/-- The options field of a raw packet. -/
def packetOptions (p : Buffer packetSize) : Buffer optionsFieldSize :=
  p.slice optionsOffset optionsFieldSize

/-- The first part of `dhcp_packet_parse`: the header fields in host order. Only 16 of the
`chaddrLen` bytes of `chaddr` are copied. -/
def parseHeader (m : Message) : Message :=
  let p := m.packet
  { m with
    opcode := p.get 0
    htype := p.get 1
    hlen := p.get 2
    hops := p.get 3
    xid := field32 p 4
    secs := field16 p 8
    flags := field16 p 10
    ciaddr := field32 p 12
    yiaddr := field32 p 16
    siaddr := field32 p 20
    giaddr := field32 p 24
    chaddr := m.chaddr.write 0 (p.slice 28 16).data
    sname := p.slice 44 64
    filename := p.slice 108 128
    cookie := field32 p 236 }

/-- `dhcp_packet_parse`; `true` stands for the return value 0. A rejected message keeps what had
been stored into it before the rejection. -/
def dhcpPacketParse (m : Message) : Except Fault (Bool × Message) := do
  let m := parseHeader m
  if m.cookie ≠ magicCookie then
    return (false, m)
  let options ← dhcpOptionParse (packetOptions m.packet)
  let m := m.setOptions options
  match dhcpOptionRetrieve m.dhcpOptions Tag.dhcpMessageType with
  | none => return (false, m)
  | some o => return (true, m.setType o.number)

/-- The header part of `dhcp_packet_build`. -/
def buildHeader (m : Message) : Buffer packetSize :=
  let p := m.packet.write 0 [m.opcode, m.htype, m.hlen, m.hops]
  let p := p.write 4 (be32Bytes m.xid)
  let p := p.write 8 (be16Bytes m.secs)
  let p := p.write 10 (be16Bytes m.flags)
  let p := p.write 12 (be32Bytes m.ciaddr)
  let p := p.write 16 (be32Bytes m.yiaddr)
  let p := p.write 20 (be32Bytes m.siaddr)
  let p := p.write 24 (be32Bytes m.giaddr)
  let p := p.write 28 (m.chaddr.slice 0 16).data
  let p := p.write 44 m.sname.data
  p.write 108 m.filename.data

/-- `dhcp_packet_build`; `true` stands for the return value 0. -/
def dhcpPacketBuild (m : Message) : Bool × Message :=
  let p := buildHeader m
  if m.cookie ≠ magicCookie then (false, m.setPacket p)
  else
    let p := p.write 236 (be32Bytes m.cookie)
    let (ok, raw) := dhcpOptionsSerialize m.dhcpOptions (packetOptions p)
    (ok, m.setPacket (p.write optionsOffset raw.data))

/-- The first six bytes of a hardware address field. -/
abbrev Mac := Buffer 6

/-- The client hardware address as it is stored in leases and compared with them. -/
def Message.mac (m : Message) : Mac := m.chaddr.slice 0 6

/-- The option of a message with the given tag. -/
def Message.option (m : Message) (tag : UInt8) : Option DhcpOption :=
  dhcpOptionRetrieve m.dhcpOptions tag

/-- The message type on the wire: the value of option 53. -/
def Message.wireType (m : Message) : Option UInt32 :=
  (m.option Tag.dhcpMessageType).map DhcpOption.number

section Fields

variable (m : Message) (p : Buffer packetSize) (options : List DhcpOption) (t : UInt32)

@[simp] theorem setPacket_packet : (m.setPacket p).packet = p := rfl
@[simp] theorem setPacket_xid : (m.setPacket p).xid = m.xid := rfl
@[simp] theorem setPacket_yiaddr : (m.setPacket p).yiaddr = m.yiaddr := rfl
@[simp] theorem setPacket_type : (m.setPacket p).type = m.type := rfl
@[simp] theorem setPacket_chaddr : (m.setPacket p).chaddr = m.chaddr := rfl
@[simp] theorem setPacket_cookie : (m.setPacket p).cookie = m.cookie := rfl
@[simp] theorem setPacket_dhcpOptions : (m.setPacket p).dhcpOptions = m.dhcpOptions := rfl
@[simp] theorem setOptions_packet : (m.setOptions options).packet = m.packet := rfl
@[simp] theorem setOptions_xid : (m.setOptions options).xid = m.xid := rfl
@[simp] theorem setOptions_yiaddr : (m.setOptions options).yiaddr = m.yiaddr := rfl
@[simp] theorem setOptions_type : (m.setOptions options).type = m.type := rfl
@[simp] theorem setOptions_chaddr : (m.setOptions options).chaddr = m.chaddr := rfl
@[simp] theorem setOptions_cookie : (m.setOptions options).cookie = m.cookie := rfl
@[simp] theorem setOptions_dhcpOptions : (m.setOptions options).dhcpOptions = options := rfl
@[simp] theorem setType_packet : (m.setType t).packet = m.packet := rfl
@[simp] theorem setType_type : (m.setType t).type = t := rfl
@[simp] theorem setType_chaddr : (m.setType t).chaddr = m.chaddr := rfl
@[simp] theorem setType_cookie : (m.setType t).cookie = m.cookie := rfl
@[simp] theorem setType_dhcpOptions : (m.setType t).dhcpOptions = m.dhcpOptions := rfl
@[simp] theorem setType_setOptions_setOptions (o' : List DhcpOption) (t' : UInt32) :
    (((m.setOptions o').setType t').setOptions options).setType t =
      (m.setOptions options).setType t := rfl
@[simp] theorem setTime_xid : (m.setTime t).xid = m.xid := rfl
@[simp] theorem setTime_yiaddr : (m.setTime t).yiaddr = m.yiaddr := rfl
@[simp] theorem setTime_chaddr : (m.setTime t).chaddr = m.chaddr := rfl
@[simp] theorem setTime_type : (m.setTime t).type = m.type := rfl
@[simp] theorem setTime_cookie : (m.setTime t).cookie = m.cookie := rfl
@[simp] theorem setTime_packet : (m.setTime t).packet = m.packet := rfl
@[simp] theorem setTime_dhcpOptions : (m.setTime t).dhcpOptions = m.dhcpOptions := rfl

@[simp] theorem parseHeader_packet : (parseHeader m).packet = m.packet := rfl
@[simp] theorem parseHeader_type : (parseHeader m).type = m.type := rfl
@[simp] theorem parseHeader_dhcpOptions : (parseHeader m).dhcpOptions = m.dhcpOptions := rfl
@[simp] theorem parseHeader_cookie : (parseHeader m).cookie = field32 m.packet 236 := rfl
@[simp] theorem parseHeader_chaddr :
    (parseHeader m).chaddr = m.chaddr.write 0 (m.packet.slice 28 16).data := rfl

end Fields

/-- `dhcp_packet_build` changes nothing but the raw packet. -/
theorem dhcpPacketBuild_message (m : Message) : ∃ p, (dhcpPacketBuild m).2 = m.setPacket p := by
  unfold dhcpPacketBuild
  split
  · exact ⟨_, rfl⟩
  · exact ⟨_, rfl⟩

/-- The outcomes of `dhcp_packet_parse`: a wrong cookie, a missing option 53, or a message with
parsed options and the type its option 53 gives. -/
theorem dhcpPacketParse_cases {m m' : Message} {ok : Bool}
    (h : dhcpPacketParse m = .ok (ok, m')) :
    (field32 m.packet 236 ≠ magicCookie ∧ ok = false ∧ m' = parseHeader m) ∨
    (field32 m.packet 236 = magicCookie ∧ ∃ options,
      dhcpOptionParse (packetOptions m.packet) = .ok options ∧
      ((dhcpOptionRetrieve options Tag.dhcpMessageType = none ∧ ok = false ∧
          m' = (parseHeader m).setOptions options) ∨
        ∃ o, dhcpOptionRetrieve options Tag.dhcpMessageType = some o ∧ ok = true ∧
          m' = ((parseHeader m).setOptions options).setType o.number)) := by
  by_cases hc : (parseHeader m).cookie = magicCookie
  · rw [dhcpPacketParse, if_neg (not_not.mpr hc)] at h
    obtain ⟨options, ho, h⟩ := seq_ok.mp h
    refine .inr ⟨hc, options, ho, ?_⟩
    simp only [setOptions_dhcpOptions] at h
    split at h <;> simp only [pure, Except.pure, Except.ok.injEq, Prod.mk.injEq] at h
    · rename_i hr
      exact .inl ⟨hr, h.1.symm, h.2.symm⟩
    · rename_i o hr
      exact .inr ⟨o, hr, h.1.symm, h.2.symm⟩
  · rw [dhcpPacketParse, if_pos hc] at h
    simp only [pure, Except.pure, Except.ok.injEq, Prod.mk.injEq] at h
    exact .inl ⟨hc, h.1.symm, h.2.symm⟩

end DHCPServer
