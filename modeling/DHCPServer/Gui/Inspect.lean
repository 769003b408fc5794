import DHCPServer.Framework.Calendar
import DHCPServer.Gui.Database
import DHCPServer.Gui.TabConfig

namespace DHCPServer

/-- `struct dhcp_option` of the page. -/
structure InspectedOption where
  tag : UInt8
  lenght : UInt8
  nameStr : CString
  lenghtStr : CString
  valueStr : CString
  format : CString
  deriving DecidableEq

/-- `struct dhcp_message_str`; `sname`, `filename` and `options` stay empty. -/
structure MessageDetails where
  opcode : CString
  htype : CString
  hlen : CString
  hops : CString
  xid : CString
  secs : CString
  flags : CString
  ciaddr : CString
  yiaddr : CString
  siaddr : CString
  giaddr : CString
  chaddr : CString
  cookie : CString
  timeWhenStored : CString
  msgType : CString
  deriving DecidableEq

/-- The names of `DHCPv4_tag_to_full_name`. -/
def tagNames : List (UInt8 × CString) := [
  (0, "Pad".toList), (1, "Subnet mask".toList), (2, "Time offset".toList), (3, "Router".toList),
  (4, "Time servers".toList), (5, "Name servers".toList), (6, "Domain name servers".toList),
  (7, "Log servers".toList), (8, "Cookie servers".toList), (9, "LPR servers".toList),
  (10, "Impress servers".toList), (11, "Resource location servers".toList),
  (12, "Host name".toList), (13, "Boot file size".toList), (14, "Merit dump".toList),
  (15, "Domain name".toList), (16, "Swap server".toList), (17, "Root path".toList),
  (18, "Extensions path".toList), (19, "IP forwarding enable/disable".toList),
  (20, "Non-local source routing enable/disable".toList), (21, "Policy filter".toList),
  (22, "Max datagram reassembly size".toList), (23, "Default IP TTL".toList),
  (24, "Path MTU aging timeout".toList), (25, "Path MTU plateau table".toList),
  (26, "Interface MTU".toList), (27, "All subnets local".toList),
  (28, "Broadcast address".toList), (29, "Perform mask discovery".toList),
  (30, "Mask supplier".toList), (31, "Router discovery".toList),
  (32, "Router solicitation address".toList), (33, "Static route".toList),
  (34, "Trailer encapsulation".toList), (35, "ARP cache timeout".toList),
  (36, "IEEE802.3 encapsulation".toList), (37, "Default TCP TTL".toList),
  (38, "TCP keepalive interval".toList), (39, "TCP keepalive garbage".toList),
  (40, "NIS domain".toList), (41, "NIS servers".toList), (42, "NTP servers".toList),
  (43, "Vendor specific info".toList), (44, "NetBIOS name servers".toList),
  (45, "NetBIOS DD server".toList), (46, "NetBIOS node type".toList),
  (47, "NetBIOS scope".toList), (48, "X window font server".toList),
  (49, "X window display manager".toList), (50, "Requested IP address".toList),
  (51, "IP address lease time".toList), (52, "Overload".toList),
  (53, "DHCP message type".toList), (54, "Server identifier".toList),
  (55, "Parameter request list".toList), (56, "Message".toList),
  (57, "Max DHCP message size".toList), (58, "Renewal time value".toList),
  (59, "Rebinding time value".toList), (60, "Vendor class identifier".toList),
  (61, "Client identifier".toList), (62, "NWIP domain name".toList),
  (63, "NWIP suboptions".toList), (77, "User class".toList), (81, "FQDN".toList),
  (82, "DHCP agent options".toList), (255, "End".toList)]

/-- `DHCPv4_tag_to_full_name` -/
def tagToFullName (tag : UInt8) : CString := (tagNames.lookup tag).getD "Unknown".toList

/-- Bytes of the options field from an index on; the field must not be left. -/
def readOptions (options : Buffer optionsFieldSize) (i n : Nat) : Except Fault (List UInt8) :=
  if i + n ≤ optionsFieldSize then .ok (options.readFrom i n) else .error .outOfBounds

/-- `uint32_from_uint8_array`: what does not fit 32 bits is shifted out. -/
def uint32FromUint8Array (bytes : List UInt8) : UInt32 :=
  bytes.foldl (fun result b => (result <<< 8) ||| b.toUInt32) 0

/-- The value and the name of its format, for a value whose bytes begin at an index. -/
def inspectedValue (options : Buffer optionsFieldSize) (tag lenght : UInt8) (i : Nat) :
    Except Fault (CString × CString) :=
  match guiTagToType tag.toNat with
  | .string => do
    let bytes ← readOptions options i lenght.toNat
    return (bytes.map fun b => Char.ofNat b.toNat, "String".toList)
  | .ip => do
    let bytes ← readOptions options i 4
    return (uint32ToIpv4Address (uint32FromUint8Array bytes), "IP Address".toList)
  | .bin => do
    let bytes ← readOptions options i lenght.toNat
    return (bytes.flatMap fun b => decimal b.toNat ++ " ".toList, "Binary".toList)
  | .bool => do
    let bytes ← readOptions options i 1
    return (if bytes.all (· = 0) then "FALSE".toList else "TRUE".toList, "Boolean".toList)
  | .numeric => do
    let bytes ← readOptions options i lenght.toNat
    return (decimal (uint32FromUint8Array bytes).toNat, "Number".toList)

/-- The option whose tag is at an index. -/
def inspectedOption (options : Buffer optionsFieldSize) (i : Nat) :
    Except Fault InspectedOption := do
  let bytes ← readOptions options i 2
  let tag := bytes.getD 0 0
  let lenght := bytes.getD 1 0
  let (value, format) ← inspectedValue options tag lenght (i + 2)
  return ⟨tag, lenght, tagToFullName tag, decimal lenght.toNat, value, format⟩

/-- One pass of the loop of `load_selected_message_options` with its index and the options shown
so far. A PAD is taken for an option with a length, and what stands behind the END mark for its
length and its value. -/
def inspectBody (options : Buffer optionsFieldSize) (s : Nat × List InspectedOption) :
    Pass (Nat × List InspectedOption) (Except Fault (List InspectedOption)) :=
  if s.1 < optionsFieldSize then
    match inspectedOption options s.1 with
    | .error f => .done (.error f)
    | .ok o =>
      if o.tag = Tag.pad then .next (s.1 + 2 + o.lenght.toNat, s.2)
      else if o.tag = Tag.endMark then .done (.ok s.2)
      else .next (s.1 + 2 + o.lenght.toNat, s.2 ++ [o])
  else .done (.ok s.2)

/-- `load_selected_message_options` for the options of the selected message; a pass that goes on
does so with a higher index. -/
def loadMessageOptions (options : Buffer optionsFieldSize) :
    Except Fault (List InspectedOption) :=
  match Loop.run (inspectBody options) (optionsFieldSize + 1) (0, []) with
  | none => .error .diverges
  | some result => result

/-- The texts of `load_selected_message`. -/
def messageDetails (m : DatabaseMessage) : MessageDetails where
  opcode := decimal m.opcode.toNat
  htype := decimal m.htype.toNat
  hlen := decimal m.hlen.toNat
  hops := decimal m.hops.toNat
  xid := "0x".toList ++ hexPadded 8 m.xid.toNat
  secs := decimal m.secs.toNat
  flags := decimal m.flags.toNat
  ciaddr := uint32ToIpv4Address m.ciaddr
  yiaddr := uint32ToIpv4Address m.yiaddr
  siaddr := uint32ToIpv4Address m.siaddr
  giaddr := uint32ToIpv4Address m.giaddr
  chaddr := hexBytes (m.chaddr.slice 0 6).data
  cookie := "0x".toList ++ hexPadded 8 m.cookie.toNat
  timeWhenStored := putTime (gmtime m.timeWhenStored.toNat)
  msgType := m.msgType

def noDetails : MessageDetails := ⟨[], [], [], [], [], [], [], [], [], [], [], [], [], [], []⟩

def noOption : InspectedOption := ⟨0, 0, [], [], [], []⟩

/-- What `TabInspect` keeps. The two vectors of `transaction_entries` are one list of pairs, and
`none` is the value -1 of the indices that have been loaded last. -/
structure TabInspect where
  filterByMac : Bool
  filterContent : CString
  filterContentLast : CString
  transactionEntries : List (CString × CString)
  transactionEntrySelected : Nat
  transactionEntrySelectedLast : Option Nat
  loadedTransaction : List DatabaseMessage
  loadedTransactionMsgTypes : List CString
  loadedTransactionSelected : Nat
  loadedTransactionSelectedLast : Option Nat
  loadedMessage : MessageDetails
  loadedDhcpOptions : List InspectedOption
  dhcpOptionEntries : List CString
  optionDetailSelected : Nat
  optionDetailSelectedLast : Option Nat
  selectedDhcpOption : InspectedOption

def tabInspectNew : TabInspect where
  filterByMac := false
  filterContent := []
  filterContentLast := "-----".toList
  transactionEntries := []
  transactionEntrySelected := 0
  transactionEntrySelectedLast := none
  loadedTransaction := []
  loadedTransactionMsgTypes := []
  loadedTransactionSelected := 0
  loadedTransactionSelectedLast := none
  loadedMessage := noDetails
  loadedDhcpOptions := []
  dhcpOptionEntries := []
  optionDetailSelected := 0
  optionDetailSelectedLast := none
  selectedDhcpOption := noOption

/-- `std::string::substr` -/
def substr (s : CString) (pos n : Nat) : Except ActionError CString :=
  if s.length < pos then .error (.thrown .outOfRange) else .ok ((s.drop pos).take n)

/-- The test of `load_transactions` on a path of the directory. -/
def passesFilter (t : TabInspect) (path : CString) : Except ActionError Bool :=
  if 1 < t.filterContent.length then
    if !t.filterByMac then do
      let xid ← substr path 19 8
      return decide (t.filterContent <:+: xid)
    else do
      let mac ← substr path 28 12
      return decide (t.filterContent.filter (· ≠ ':') <:+: mac)
  else return true

/-- The loop of `load_transactions` over the paths of the directory. -/
def listTransactions (t : TabInspect) : List CString → Except ActionError (List (CString × CString))
  | [] => return []
  | path :: paths => do
    if ← passesFilter t path then
      let xid ← substr path 19 8
      let mac ← substr path 28 12
      return (xid, mac) :: (← listTransactions t paths)
    else listTransactions t paths

def loadTransactions (directory : List CString) (t : TabInspect) :
    Except ActionError TabInspect := do
  let entries ← listTransactions t directory
  -- the loop selects the first entry in each of its passes while there is a filter
  let selected :=
    if 1 < t.filterContent.length ∧ directory ≠ [] then 0 else t.transactionEntrySelected
  return { t with
    transactionEntries := entries
    transactionEntrySelected := selected
    filterContentLast := t.filterContent
    transactionEntrySelectedLast := some selected }

/-- A message after `strcat` has put a blank behind the name of its type. -/
def DatabaseMessage.spaced (m : DatabaseMessage) : DatabaseMessage :=
  { m with msgType := m.msgType ++ " ".toList }

/-- The path that `load_selected_transaction` makes of an entry. -/
def entryPath (entry : CString × CString) : CString :=
  "/var/dhcp/database/".toList ++ entry.1 ++ "_".toList ++ entry.2 ++ ".dhcp".toList

def loadSelectedTransaction (files : DatabaseFiles) (t : TabInspect) :
    Except ActionError TabInspect :=
  if t.transactionEntries = [] then .ok t
  else
    match t.transactionEntries[t.transactionEntrySelected]? with
    | none => .error (.fault .outOfBounds)
    | some entry => do
      let messages ← (databaseLoadEntry files (entryPath entry)).mapError .fault
      let loaded := messages.map DatabaseMessage.spaced
      return { t with
        loadedTransaction := loaded
        loadedTransactionMsgTypes := loaded.map DatabaseMessage.msgType }

def loadSelectedMessage (t : TabInspect) : Except ActionError TabInspect :=
  if t.loadedTransactionSelectedLast = some t.loadedTransactionSelected then .ok t
  else if t.transactionEntries = [] then .ok { t with loadedMessage := noDetails }
  else
    match t.loadedTransaction[t.loadedTransactionSelected]? with
    | none => .error (.fault .outOfBounds)
    | some m => do
      let options ← (loadMessageOptions m.options).mapError .fault
      return { t with
        loadedMessage := messageDetails m
        optionDetailSelected := 0
        optionDetailSelectedLast := none
        loadedDhcpOptions := options
        dhcpOptionEntries := options.map fun o => decimal o.tag.toNat
        loadedTransactionSelectedLast := some t.loadedTransactionSelected }

def loadSelectedOption (t : TabInspect) : Except ActionError TabInspect :=
  if t.transactionEntries = [] then .ok { t with selectedDhcpOption := noOption }
  else if t.optionDetailSelectedLast = some t.optionDetailSelected then .ok t
  else
    match t.loadedDhcpOptions[t.optionDetailSelected]? with
    | none => .error (.fault .outOfBounds)
    | some o =>
      .ok { t with
        selectedDhcpOption := o
        optionDetailSelectedLast := some t.optionDetailSelected }

/-- The condition under which `refresh` reads the directory again. -/
def TabInspect.Outdated (t : TabInspect) : Prop :=
  t.filterContent ≠ t.filterContentLast ∨
    t.transactionEntrySelectedLast ≠ some t.transactionEntrySelected

instance (t : TabInspect) : Decidable t.Outdated := inferInstanceAs (Decidable (_ ∨ _))

/-- The reading of the directory in `TabInspect::refresh`. -/
def reload (directory : List CString) (files : DatabaseFiles) (t : TabInspect) :
    Except ActionError TabInspect := do
  let t ← loadTransactions directory t
  let t ← loadSelectedTransaction files t
  return { t with loadedTransactionSelectedLast := none }

def TabInspect.update (directory : List CString) (files : DatabaseFiles) (t : TabInspect) :
    Except ActionError TabInspect :=
  if t.Outdated then reload directory files t else .ok t

/-- `TabInspect::refresh`, with the paths of the database directory in the order in which it is
iterated. -/
def TabInspect.refresh (directory : List CString) (files : DatabaseFiles) (t : TabInspect) :
    Except ActionError TabInspect := do
  let t ← t.update directory files
  let t ← loadSelectedMessage t
  loadSelectedOption t

/-- `remove_database_entry`: the path that is removed, if any. -/
def removeDatabaseEntry (directory : List CString) (t : TabInspect) :
    Except ActionError (Option CString) :=
  match t.transactionEntries[t.transactionEntrySelected]? with
  | none => .error (.fault .outOfBounds)
  | some (xid, _) => .ok (directory.find? fun path => decide (xid ++ "_".toList <:+: path))

section Reload

variable {directory : List CString} {files : DatabaseFiles} {t t' : TabInspect}
  {entries : List (CString × CString)}

/-- The entry that is selected once the directory has been read. -/
def selectedAfter (directory : List CString) (t : TabInspect) : Nat :=
  if 1 < t.filterContent.length ∧ directory ≠ [] then 0 else t.transactionEntrySelected

/-- The page keeps the messages and the options it holds, and so the two menus. -/
structure KeepsMenus (t t' : TabInspect) : Prop where
  loadedTransaction : t'.loadedTransaction = t.loadedTransaction
  loadedTransactionMsgTypes : t'.loadedTransactionMsgTypes = t.loadedTransactionMsgTypes
  loadedDhcpOptions : t'.loadedDhcpOptions = t.loadedDhcpOptions
  dhcpOptionEntries : t'.dhcpOptionEntries = t.dhcpOptionEntries

theorem KeepsMenus.trans {t₁ t₂ t₃ : TabInspect} (h : KeepsMenus t₁ t₂) (h' : KeepsMenus t₂ t₃) :
    KeepsMenus t₁ t₃ :=
  ⟨h'.loadedTransaction.trans h.loadedTransaction,
    h'.loadedTransactionMsgTypes.trans h.loadedTransactionMsgTypes,
    h'.loadedDhcpOptions.trans h.loadedDhcpOptions, h'.dhcpOptionEntries.trans h.dhcpOptionEntries⟩

/-- `t'` is the page `t` after it has read the directory and found the entries: the selected one is
loaded, if there is any, and the message shown is to be loaded again. -/
structure Reloaded (directory : List CString) (files : DatabaseFiles) (t : TabInspect)
    (entries : List (CString × CString)) (t' : TabInspect) : Prop where
  filterContent : t'.filterContent = t.filterContent
  filterContentLast : t'.filterContentLast = t.filterContent
  transactionEntries : t'.transactionEntries = entries
  transactionEntrySelected : t'.transactionEntrySelected = selectedAfter directory t
  transactionEntrySelectedLast : t'.transactionEntrySelectedLast = some (selectedAfter directory t)
  loadedTransactionSelectedLast : t'.loadedTransactionSelectedLast = none
  loadedTransaction : entries ≠ [] → ∃ entry messages,
    entries[selectedAfter directory t]? = some entry ∧
      databaseLoadEntry files (entryPath entry) = .ok messages ∧
      t'.loadedTransaction = messages.map DatabaseMessage.spaced
  loadedTransactionMsgTypes : entries ≠ [] →
    t'.loadedTransactionMsgTypes = t'.loadedTransaction.map DatabaseMessage.msgType
  loadedDhcpOptions : t'.loadedDhcpOptions = t.loadedDhcpOptions
  dhcpOptionEntries : t'.dhcpOptionEntries = t.dhcpOptionEntries
  menus : entries = [] → KeepsMenus t t'

theorem loadTransactions_ok : loadTransactions directory t = .ok t' ↔
    ∃ entries, listTransactions t directory = .ok entries ∧ t' = { t with
      transactionEntries := entries
      transactionEntrySelected := selectedAfter directory t
      filterContentLast := t.filterContent
      transactionEntrySelectedLast := some (selectedAfter directory t) } := by
  rw [loadTransactions, seq_ok]
  constructor
  · rintro ⟨entries, hlist, h⟩
    cases h
    exact ⟨entries, hlist, rfl⟩
  · rintro ⟨entries, hlist, rfl⟩
    exact ⟨entries, hlist, rfl⟩

theorem reload_spec (h : reload directory files t = .ok t') :
    ∃ entries, listTransactions t directory = .ok entries ∧
      Reloaded directory files t entries t' := by
  unfold reload at h
  obtain ⟨t₁, hlist, hrest⟩ := seq_ok.mp h
  obtain ⟨t₂, hload, hlast⟩ := seq_ok.mp hrest
  obtain rfl := Except.ok.inj hlast
  obtain ⟨entries, hentries, rfl⟩ := loadTransactions_ok.mp hlist
  refine ⟨entries, hentries, ?_⟩
  unfold loadSelectedTransaction at hload
  split at hload
  · rename_i hempty
    cases hload
    exact ⟨rfl, rfl, rfl, rfl, rfl, rfl, fun hne => absurd hempty hne,
      fun hne => absurd hempty hne, rfl, rfl, fun _ => ⟨rfl, rfl, rfl, rfl⟩⟩
  · rename_i hne
    split at hload
    · cases hload
    · rename_i entry hentry
      obtain ⟨messages, hmessages, hload⟩ := seq_ok.mp hload
      cases hload
      exact ⟨rfl, rfl, rfl, rfl, rfl, rfl, fun _ =>
        ⟨entry, messages, hentry, mapError_ok.mp hmessages, rfl⟩, fun _ => rfl, rfl, rfl,
        fun hempty => absurd hempty hne⟩

/-- The directory is read without a fault when there is an entry to select, or none at all. -/
theorem reload_isOk (hlist : listTransactions t directory = .ok entries)
    (hload : ∀ entry ∈ entries, ∃ messages,
      databaseLoadEntry files (entryPath entry) = .ok messages) :
    (∃ t', reload directory files t = .ok t') ↔
      entries = [] ∨ selectedAfter directory t < entries.length := by
  have hfirst := loadTransactions_ok.mpr ⟨entries, hlist, rfl⟩
  constructor
  · rintro ⟨t', h⟩
    obtain ⟨entries', hlist', hr⟩ := reload_spec h
    obtain rfl : entries = entries' := Except.ok.inj (hlist.symm.trans hlist')
    by_cases hempty : entries = []
    · exact .inl hempty
    · obtain ⟨entry, messages, hentry, -⟩ := hr.loadedTransaction hempty
      exact .inr (List.getElem?_eq_some_iff.mp hentry).1
  · intro h
    unfold reload
    rw [exists_seq_ok]
    refine ⟨_, hfirst, ?_⟩
    rw [exists_seq_ok]
    by_cases hempty : entries = []
    · exact ⟨_, by rw [loadSelectedTransaction, if_pos hempty], _, rfl⟩
    · have hin := h.resolve_left hempty
      obtain ⟨messages, hmessages⟩ := hload _ (List.getElem_mem hin)
      simp only [loadSelectedTransaction, hempty, if_false, List.getElem?_eq_getElem hin]
      exact ⟨_, seq_ok.mpr ⟨_, mapError_ok.mpr hmessages, rfl⟩, _, rfl⟩

end Reload

end DHCPServer
