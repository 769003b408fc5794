import DHCPServer.Packet.Receive
import DHCPServer.Transaction.Timer
import DHCPServer.Utils.Xtoy

namespace DHCPServer

/-- `enum dhcp_snooper_status` -/
inductive SnoopStatus where
  | disabled
  | error
  | noThreat
  | potentialRogue
  deriving DecidableEq, Repr

/-- `STATUS_MSG_LEN` -/
def statusMsgLen : Nat := 4096

/-- `DHCP_OPTION_HOST_NAME` -/
def Tag.hostName : UInt8 := 12

section Discover

/-- The message of `snoop_send_dhcp_discover`, whose only option is the message type. -/
def snoopDiscover (xid : UInt32) (mac : Mac) : Message :=
  { dhcpMessageNew with
    opcode := 1
    htype := 1
    hlen := 6
    hops := 0
    xid := xid
    secs := 65535
    ciaddr := 0
    yiaddr := 0
    siaddr := 0
    flags := 32768
    giaddr := 0
    cookie := magicCookie
    type := MsgType.discover
    chaddr := (Buffer.zero chaddrLen).write 0 mac.data
    dhcpOptions := dhcpOptionAdd [] (dhcpOptionNewValues Tag.dhcpMessageType 1 [1]) }

end Discover

/-- What the world does in one pass of `listen_to_offers`: the reading of the clock, and the
datagram that `recv` delivers, if any. -/
structure Listen where
  now : UInt32
  datagram : Option Datagram

/-- The variables of `listen_to_offers` that what is received goes into. `rogue` records that the
status has been set to `DHCP_SNOOP_POTENTIAL_ROGUE`. -/
structure Hearing where
  message : Message
  statusMsg : CString
  rogue : Bool

/-- The variables of the loop of `listen_to_offers`. -/
structure Scan where
  keepWaitingForOffer : Bool
  timer : Timer
  hearing : Hearing

/-- `is_server_whitelisted`; a message without a server identifier never is. -/
def isServerWhitelisted (list : List UInt32) (m : Message) : Bool :=
  match m.option Tag.serverIdentifier with
  | none => false
  | some o => list.any (· == o.ip)

/-- `strcat` into the status message. -/
def strcatStatus (status text : CString) : Except Fault CString :=
  if status.length + text.length < statusMsgLen then .ok (status ++ text) else .error .outOfBounds

/-- `value.string` as `%s` reads it. -/
def DhcpOption.string (o : DhcpOption) : Except Fault CString :=
  if o.value.data.contains 0 then .ok (bufferText o.value.data) else .error .outOfBounds

/-- `log_threat`. Whether a host name is printed depends on the server identifier. -/
def logThreat (m : Message) (status : CString) : Except Fault CString := do
  match m.option Tag.serverIdentifier with
  | none =>
    let status ← strcatStatus status "Threat: No_ID - ".toList
    strcatStatus status "No hostname,".toList
  | some oServerId =>
    let status ← strcatStatus status
      ("Threat: ".toList ++ uint32ToIpv4Address oServerId.ip ++ " - ".toList)
    let oHostname ← deref (m.option Tag.hostName)
    let name ← oHostname.string
    strcatStatus status ("hostname: ".toList ++ name ++ ",".toList)

/-- An OFFER that answers the scan and does not come from a listed server. -/
def isThreat (whitelist : List UInt32) (xid : UInt32) (m : Message) : Bool :=
  !(m.type != MsgType.offer || m.xid != xid) && !isServerWhitelisted whitelist m

/-- A pass of the loop of `listen_to_offers` from `recv` on. -/
def hearOffer (whitelist : List UInt32) (xid : UInt32) (h : Hearing) (datagram : Option Datagram) :
    Except Fault Hearing :=
  match datagram with
  | none => .ok h
  | some d => do
    let (ok, m) ← receive h.message d
    if ok && isThreat whitelist xid m then
      let status ← logThreat m h.statusMsg
      return ⟨m, status, true⟩
    else return ⟨m, h.statusMsg, h.rogue⟩

/-- One pass of the loop of `listen_to_offers`. The callback of the timer ends the loop, but not the
pass it is called in. -/
def listenPass (whitelist : List UInt32) (xid : UInt32) (s : Scan) (l : Listen) :
    Except Fault Scan := do
  let (fires, timer) := timerUpdate l.now s.timer
  let hearing ← hearOffer whitelist xid s.hearing l.datagram
  return ⟨s.keepWaitingForOffer && !fires, timer, hearing⟩

/-- The loop of `listen_to_offers` over the passes the world has in store. -/
def listenFrom (whitelist : List UInt32) (xid : UInt32) : Scan → List Listen → Except Fault Scan
  | s, [] => .ok s
  | s, l :: ls =>
    if s.keepWaitingForOffer then do
      let s ← listenPass whitelist xid s l
      listenFrom whitelist xid s ls
    else .ok s

/-- The variables on entry to the loop: the timer of ten seconds is running. -/
def scanEntry (start : UInt32) : Scan :=
  ⟨true, timerNew start .once 10 true, ⟨dhcpMessageNew, [], false⟩⟩

/-- `listen_to_offers` on an empty status message; `none` means that the loop goes on when the
passes are used up. -/
def listenToOffers (whitelist : List UInt32) (xid start : UInt32) (ls : List Listen) :
    Except Fault (Option (SnoopStatus × CString)) := do
  let s ← listenFrom whitelist xid (scanEntry start) ls
  if s.keepWaitingForOffer then return none
  else if s.hearing.rogue then return some (.potentialRogue, s.hearing.statusMsg)
  else
    let status ← strcatStatus s.hearing.statusMsg "No threats detected".toList
    return some (.noThreat, status)

/-- What the world does during a scan: the number `rand` returns, whether the client socket can be
opened and the DISCOVER sent, the bytes of `mac_buffer` before it is filled, the reading of the
clock when the timer is made, and the passes of the listening loop. -/
structure ScanWorld where
  rand : UInt32
  socket : Bool
  sends : Bool
  macBuffer : Mac
  start : UInt32
  listens : List Listen

/-- The packet of a scan. -/
def ScanWorld.discover (w : ScanWorld) (spoofedMac : CString) : Message :=
  snoopDiscover w.rand (macToUint8Array spoofedMac w.macBuffer)

/-- `dhcp_snooper_perform_scan` of a server built with snooping; `spoofed_mac` may be NULL. -/
def dhcpSnooperPerformScan (w : ScanWorld) (spoofedMac : Option CString)
    (serverWhitelist : List UInt32) : Except Fault (Option (SnoopStatus × CString)) :=
  match spoofedMac with
  | none => .ok (some (.error, []))
  | some mac =>
    if !w.socket then .ok (some (.error, []))
    else if !(dhcpPacketBuild (w.discover mac)).1 then .ok (some (.error, []))
    else if !w.sends then .ok (some (.error, []))
    else listenToOffers serverWhitelist w.rand w.start w.listens

/-- `dhcp_snooper_check_xid` -/
def dhcpSnooperCheckXid (xidUsedInScan xid : UInt32) : Bool := xid == xidUsedInScan

end DHCPServer
