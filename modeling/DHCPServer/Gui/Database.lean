import Mathlib.Data.Bool.AllAny
import DHCPServer.Database.Store
import DHCPServer.Packet.Codec

namespace DHCPServer

/-- `struct dhcp_message` of the GUI: the layout of a packet, with the words in host order, the
time the message was stored at and the name of its type. -/
structure DatabaseMessage where
  opcode : UInt8
  htype : UInt8
  hlen : UInt8
  hops : UInt8
  xid : UInt32
  secs : UInt16
  flags : UInt16
  ciaddr : UInt32
  yiaddr : UInt32
  siaddr : UInt32
  giaddr : UInt32
  chaddr : Buffer 16
  sname : Buffer 64
  filename : Buffer 128
  cookie : UInt32
  options : Buffer optionsFieldSize
  timeWhenStored : UInt32
  msgType : CString

/-- The name that `get_msg_type` gives to a value of option 53. -/
def msgTypeName (b : UInt8) : CString :=
  if b = 1 then "DISCOVER".toList
  else if b = 2 then "OFFER".toList
  else if b = 3 then "REQUEST".toList
  else if b = 4 then "DECLINE".toList
  else if b = 5 then "ACK".toList
  else if b = 6 then "NAK".toList
  else if b = 7 then "RELEASE".toList
  else if b = 8 then "INFORM".toList
  else "UNKNOWN".toList

theorem msgTypeName_ne_nil (b : UInt8) : msgTypeName b ≠ [] := by
  unfold msgTypeName
  split_ifs <;> simp

/-- One pass of the loop of `get_msg_type` with its index and the name found so far. -/
def msgTypeBody (options : Buffer optionsFieldSize) (s : Nat × CString) :
    Pass (Nat × CString) CString :=
  if s.1 < optionsFieldSize then
    if options.get s.1 = 0 then .next (s.1 + 1, s.2)
    else if options.get s.1 = 255 then .done s.2
    else
      let name :=
        if options.get s.1 = 53 ∧ s.1 + 2 < optionsFieldSize then msgTypeName (options.get (s.1 + 2))
        else s.2
      if optionsFieldSize ≤ s.1 + 1 then .done name
      else if optionsFieldSize ≤ s.1 + 1 + ((options.get (s.1 + 1)).toNat + 1) then .done name
      else .next (s.1 + 1 + ((options.get (s.1 + 1)).toNat + 1), name)
  else .done s.2

/-- `get_msg_type`; a pass that goes on does so with a higher index. -/
def getMsgType (options : Buffer optionsFieldSize) : Except Fault CString :=
  match Loop.run (msgTypeBody options) (optionsFieldSize + 1) (0, []) with
  | none => .error .diverges
  | some name => .ok (if name = [] then "UNKNOWN".toList else name)

/-- `sscanf` of the metadata with `"T:%08lx"`; the number is stored through a pointer to
`unsigned long`, of which the low half is the time. -/
def scanTime (header : List UInt8) : Option UInt32 := do
  let s ← scanChar 'T' (bufferText header)
  let s ← scanChar ':' s
  let (n, _) ← scanHex 8 s
  return UInt32.ofInt n

/-- The message buffer after a record has been read into it and its words have been converted. -/
def databaseMessage (p : Buffer packetSize) (time : UInt32) (msgType : CString) :
    DatabaseMessage where
  opcode := p.get 0
  htype := p.get 1
  hlen := p.get 2
  hops := p.get 3
  xid := field32 p 4
  secs := field16 p 8
  flags := field16 p 10
  ciaddr := field32 p 12
  yiaddr := field32 p 16
  siaddr := field32 p 20
  giaddr := field32 p 24
  chaddr := p.slice 28 16
  sname := p.slice 44 64
  filename := p.slice 108 128
  cookie := field32 p 236
  options := packetOptions p
  timeWhenStored := time
  msgType := msgType

/-- What is left of the file, and the messages found so far. -/
abbrev LoadState := List UInt8 × List DatabaseMessage

/-- One pass of the loop of `database_load_entry`. Data that end too early end the loop, whatever
else is not right drops the record. -/
def loadBody (s : LoadState) : Pass LoadState (Except Fault (List DatabaseMessage)) :=
  let header := s.1.take metadataLen
  let image := (s.1.drop metadataLen).take packetSize
  let rest := (s.1.drop metadataLen).drop packetSize
  if header.length ≠ metadataLen then .done (.ok s.2)
  else if image.length ≠ packetSize then .done (.ok s.2)
  else
    match scanTime header with
    | none => .next (rest, s.2)
    | some time =>
      let p := (Buffer.zero packetSize).write 0 image
      if field32 p 236 ≠ magicCookie then .next (rest, s.2)
      else
        match getMsgType (packetOptions p) with
        | .error f => .done (.error f)
        | .ok msgType => .next (rest, s.2 ++ [databaseMessage p time msgType])

/-- `database_load_entry`; a file that cannot be opened has no messages. A pass that goes on takes
a record off the file. -/
def databaseLoadEntry (files : DatabaseFiles) (path : CString) :
    Except Fault (List DatabaseMessage) :=
  match files path with
  | none => .ok []
  | some file =>
    match Loop.run loadBody (file.length + 1) (file, []) with
    | none => .error .diverges
    | some result => result

section MsgType

variable {options : Buffer optionsFieldSize}

/-- A pass that goes on does so with a higher index, inside the options. -/
theorem msgTypeBody_next {s s' : Nat × CString} (h : msgTypeBody options s = .next s') :
    s.1 < optionsFieldSize ∧ s.1 < s'.1 := by
  unfold msgTypeBody at h
  split at h
  · rename_i hi
    refine ⟨hi, ?_⟩
    split at h
    · rw [← Pass.next.inj h]
      exact Nat.lt_succ_self _
    split at h
    · cases h
    dsimp only at h
    split at h
    · cases h
    split at h
    · cases h
    · rw [← Pass.next.inj h]
      show s.1 < s.1 + 1 + ((options.get (s.1 + 1)).toNat + 1)
      omega
  · cases h

/-- Every options field has a type name. -/
theorem getMsgType_ok (options : Buffer optionsFieldSize) :
    ∃ name, getMsgType options = .ok name := by
  have hsome : (Loop.run (msgTypeBody options) (optionsFieldSize + 1) (0, [])).isSome := by
    apply Loop.run_isSome_of_measure (fun s => optionsFieldSize - s.1)
    · intro s s' _ hb
      obtain ⟨hi, hlt⟩ := msgTypeBody_next hb
      omega
    · show optionsFieldSize - 0 < optionsFieldSize + 1
      omega
  obtain ⟨name, hname⟩ := Option.isSome_iff_exists.mp hsome
  exact ⟨_, by rw [getMsgType, hname]⟩

end MsgType

section Metadata

variable {time : Nat} {mac : Mac}

theorem ascii_metadataText (h : time < 2 ^ 32) {c : Char} (hc : c ∈ metadataText time mac) :
    0 < c.toNat ∧ c.toNat < 128 := by
  have hletters : ∀ c ∈ "T:".toList ++ "CA:".toList ++ "P:".toList, 0 < c.toNat ∧ c.toNat < 128 :=
    List.all_iff_forall_prop.mp (by decide)
  have htime : hexPadded 8 time = hexText 8 time := if_pos h
  simp only [metadataText, htime, macText, List.mem_append, List.mem_flatMap] at hc
  rcases hc with (((hc | hc) | hc) | ⟨b, -, hc⟩) | hc
  · exact hletters c (List.mem_append_left _ (List.mem_append_left _ hc))
  · exact ascii_hexText hc
  · exact hletters c (List.mem_append_left _ (List.mem_append_right _ hc))
  · exact ascii_hexText hc
  · exact hletters c (List.mem_append_right _ hc)

theorem length_metadataText (h : time < 2 ^ 32) : (metadataText time mac).length = 27 := by
  have htime : hexPadded 8 time = hexText 8 time := if_pos h
  have hmac : (macText mac).length = 12 := by
    rw [macText, List.length_flatMap]
    simp only [length_hexText, List.map_const', List.sum_replicate, Buffer.length_data]
    rfl
  simp only [metadataText, htime, List.length_append, hmac, length_hexText]
  rfl

/-- The time is read back from the metadata, in front of the letters that look like digits. -/
theorem scanTime_metadata (h : time < 2 ^ 32) :
    scanTime (metadata time mac) = some (UInt32.ofNat time) := by
  have hlen : (metadataText time mac).length = 27 := length_metadataText h
  have hwhole : (metadataText time mac).take (metadataLen - 1) = metadataText time mac :=
    List.take_of_length_le (by rw [hlen]; decide)
  have hbytes : metadata time mac =
      asciiBytes (metadataText time mac) ++ 0 :: List.replicate (metadataLen - 28) 0 := by
    have hascii : (asciiBytes (metadataText time mac)).length = 27 := by
      rw [asciiBytes, List.length_map, hlen]
    rw [metadata, hwhole, List.take_append, hascii, List.take_of_length_le (by rw [hascii]; decide)]
    rfl
  have htime : hexPadded 8 time = hexText 8 time := if_pos h
  have hread : scanHex 8 (hexText 8 time ++ ("CA:".toList ++ macText mac ++ "P:".toList)) =
      some ((time : Int), "CA:".toList ++ macText mac ++ "P:".toList) :=
    scanHex_hexText (by decide) h
  have hofInt : UInt32.ofInt (time : Int) = UInt32.ofNat time := by
    have hmod : ((time : Int) % 2 ^ 32).toNat = time := by omega
    rw [UInt32.ofInt, hmod]
  have htext : metadataText time mac = 'T' :: ':' :: (hexText 8 time ++
      ("CA:".toList ++ macText mac ++ "P:".toList)) := by
    simp only [metadataText, htime, List.append_assoc]
    rfl
  rw [scanTime, hbytes, bufferText_asciiBytes fun c hc => ascii_metadataText h hc, htext]
  simp only [scanChar, if_true, hread, Option.bind_eq_bind, Option.bind_some, Option.pure_def,
    hofInt]

end Metadata

/-- The entry shows the stored message: the words of its packet in host order, the arrays as they
are, the name of its type, and the time of storing. -/
structure EntryOf (r : Nat × Message) (e : DatabaseMessage) : Prop where
  opcode : e.opcode = r.2.packet.get 0
  htype : e.htype = r.2.packet.get 1
  hlen : e.hlen = r.2.packet.get 2
  hops : e.hops = r.2.packet.get 3
  xid : e.xid = field32 r.2.packet 4
  secs : e.secs = field16 r.2.packet 8
  flags : e.flags = field16 r.2.packet 10
  ciaddr : e.ciaddr = field32 r.2.packet 12
  yiaddr : e.yiaddr = field32 r.2.packet 16
  siaddr : e.siaddr = field32 r.2.packet 20
  giaddr : e.giaddr = field32 r.2.packet 24
  chaddr : e.chaddr = r.2.packet.slice 28 16
  sname : e.sname = r.2.packet.slice 44 64
  filename : e.filename = r.2.packet.slice 108 128
  cookie : e.cookie = field32 r.2.packet 236
  options : e.options = packetOptions r.2.packet
  timeWhenStored : e.timeWhenStored.toNat = r.1
  msgType : getMsgType (packetOptions r.2.packet) = .ok e.msgType

section Load

/-- A packet that is read into the buffer replaces all of it. -/
theorem read_packet (p : Buffer packetSize) : (Buffer.zero packetSize).write 0 p.data = p := by
  apply Buffer.ext_get
  intro i hi
  have hin : ((Buffer.zero packetSize).write 0 p.data).get (0 + i) = p.data.getD i 0 :=
    Buffer.get_write_in _ (by simpa using hi) (by omega)
  rw [Nat.zero_add] at hin
  rw [hin, Buffer.getD_data]

/-- A pass over a stored record takes it off the file and adds its entry. -/
theorem loadBody_record {time : Nat} {m : Message} {rest : List UInt8}
    (htime : time < 2 ^ 32) (hcookie : field32 m.packet 236 = magicCookie)
    (entries : List DatabaseMessage) :
    ∃ e, EntryOf (time, m) e ∧
      loadBody (storedRecord time m ++ rest, entries) = .next (rest, entries ++ [e]) := by
  obtain ⟨name, hname⟩ := getMsgType_ok (packetOptions m.packet)
  refine ⟨databaseMessage m.packet (UInt32.ofNat time) name, ?_, ?_⟩
  · constructor
    case timeWhenStored => exact UInt32.toNat_ofNat_of_lt' htime
    case msgType => exact hname
    all_goals rfl
  · have hlen := length_metadata time m.mac
    have hheader : (storedRecord time m ++ rest).take metadataLen = metadata time m.mac := by
      rw [storedRecord, List.append_assoc, List.take_left' hlen]
    have hdrop : (storedRecord time m ++ rest).drop metadataLen = m.packet.data ++ rest := by
      rw [storedRecord, List.append_assoc, List.drop_left' hlen]
    have hpacket : m.packet.data.length = packetSize := m.packet.length_data
    have himage : (m.packet.data ++ rest).take packetSize = m.packet.data :=
      List.take_left' hpacket
    have hrest : (m.packet.data ++ rest).drop packetSize = rest := List.drop_left' hpacket
    simp only [loadBody, hheader, hdrop, himage, hrest, hlen, hpacket, scanTime_metadata htime,
      read_packet, hcookie, hname, ne_eq, not_true_eq_false, if_false]

/-- At the end of the file the loop is left with what has been found. -/
theorem loadBody_end (entries : List DatabaseMessage) : loadBody ([], entries) = .done (.ok entries) :=
  rfl

/-- The loop turns the records into entries, one by one and in order. -/
theorem load_records {messages : List (Nat × Message)} (htime : ∀ r ∈ messages, r.1 < 2 ^ 32)
    (hcookie : ∀ r ∈ messages, field32 r.2.packet 236 = magicCookie) {fuel : Nat}
    (hfuel : messages.length < fuel) (found : List DatabaseMessage) :
    ∃ entries, List.Forall₂ EntryOf messages entries ∧
      Loop.run loadBody fuel (messages.flatMap fun r => storedRecord r.1 r.2, found) =
        some (.ok (found ++ entries)) := by
  induction messages generalizing fuel found with
  | nil =>
    obtain ⟨fuel, rfl⟩ : ∃ k, fuel = k + 1 := ⟨fuel - 1, by omega⟩
    refine ⟨[], .nil, ?_⟩
    rw [List.append_nil]
    exact Loop.run_done (loadBody_end found) fuel
  | cons r messages ih =>
    obtain ⟨fuel, rfl⟩ : ∃ k, fuel = k + 1 := ⟨fuel - 1, by omega⟩
    obtain ⟨e, he, hbody⟩ : ∃ e, EntryOf (r.1, r.2) e ∧
        loadBody (storedRecord r.1 r.2 ++ messages.flatMap fun r => storedRecord r.1 r.2, found) =
          .next (messages.flatMap fun r => storedRecord r.1 r.2, found ++ [e]) :=
      loadBody_record (htime r List.mem_cons_self) (hcookie r List.mem_cons_self) found
    have hlength : messages.length < fuel := by
      rw [List.length_cons] at hfuel
      omega
    obtain ⟨entries, hentries, hrun⟩ := ih (fun r hr => htime r (List.mem_cons_of_mem _ hr))
      (fun r hr => hcookie r (List.mem_cons_of_mem _ hr)) hlength (found ++ [e])
    refine ⟨e :: entries, .cons he hentries, ?_⟩
    rw [List.flatMap_cons, Loop.run_next hbody, hrun, List.append_assoc, List.singleton_append]

end Load

/-- Whatever was stored under one xid and hardware address, the GUI loads as many entries from the
file, in the same order, and each shows the message that was stored. -/
theorem database_round_trip (files : DatabaseFiles) (xid : UInt32) (mac : Mac)
    (messages : List (Nat × Message)) (hnew : files (databasePath xid mac) = none)
    (hkey : ∀ r ∈ messages, r.2.xid = xid ∧ r.2.mac = mac)
    (htime : ∀ r ∈ messages, r.1 < 2 ^ 32)
    (hcookie : ∀ r ∈ messages, field32 r.2.packet 236 = magicCookie) :
    ∃ entries,
      databaseLoadEntry (databaseStoreAll files messages) (databasePath xid mac) = .ok entries ∧
      List.Forall₂ EntryOf messages entries := by
  have hfile : (databaseStoreAll files messages (databasePath xid mac)).getD [] =
      (files (databasePath xid mac)).getD [] ++ messages.flatMap fun r => storedRecord r.1 r.2 :=
    databaseStoreAll_file hkey
  rw [hnew, Option.getD_none, List.nil_append] at hfile
  have hlength : messages.length ≤ (messages.flatMap fun r => storedRecord r.1 r.2).length := by
    rw [List.length_flatMap]
    simp only [length_storedRecord, List.map_const', List.sum_replicate, metadataLen, packetSize]
    rw [smul_eq_mul]
    omega
  cases hopen : databaseStoreAll files messages (databasePath xid mac) with
  | none =>
    -- no file: nothing has been stored
    rw [hopen, Option.getD_none] at hfile
    rw [← hfile] at hlength
    have hnil : messages = [] := List.eq_nil_of_length_eq_zero (Nat.le_zero.mp hlength)
    exact ⟨[], by rw [databaseLoadEntry, hopen], hnil ▸ .nil⟩
  | some file =>
    rw [hopen, Option.getD_some] at hfile
    obtain ⟨entries, hentries, hrun⟩ := load_records htime hcookie
      (Nat.lt_succ_of_le (hfile ▸ hlength)) []
    rw [← hfile] at hrun
    exact ⟨entries, by rw [databaseLoadEntry, hopen]; simp only [hrun, List.nil_append], hentries⟩

/-- A message from one client with the given opcode. -/
def cookieMessage (opcode : UInt8) : Message :=
  parseHeader (dhcpMessageNew.setPacket
    ((((Buffer.zero packetSize).write 0 [opcode, 1, 6, 0, 0, 0, 0, 7]).write 28
      [2, 0, 0, 0, 0, 9]).write 236 [0x63, 0x82, 0x53, 0x63]))

/-- A request and the reply to it come back as two entries. -/
theorem database_round_trip_pair :
    ∃ entries,
      databaseLoadEntry
        (databaseStoreAll (fun _ => none)
          [(0x665aa000, cookieMessage 1), (0x665aa001, cookieMessage 2)])
        (databasePath (cookieMessage 1).xid (cookieMessage 1).mac) = .ok entries ∧
      List.Forall₂ EntryOf [(0x665aa000, cookieMessage 1), (0x665aa001, cookieMessage 2)] entries := by
  apply database_round_trip
  · rfl
  · intro r hr
    simp only [List.mem_cons, List.not_mem_nil, or_false] at hr
    rcases hr with rfl | rfl <;> exact ⟨by decide +kernel, by decide +kernel⟩
  · intro r hr
    simp only [List.mem_cons, List.not_mem_nil, or_false] at hr
    rcases hr with rfl | rfl <;> decide
  · intro r hr
    simp only [List.mem_cons, List.not_mem_nil, or_false] at hr
    rcases hr with rfl | rfl <;> decide +kernel

end DHCPServer
