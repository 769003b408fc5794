import DHCPServer.Framework.Text
import DHCPServer.Packet.Message
import DHCPServer.Pool.AddressPool

namespace DHCPServer

/-- The content of the database files by path, for those that exist. -/
abbrev DatabaseFiles := CString → Option (List UInt8)

/-- `METADATA_LEN` -/
def metadataLen : Nat := 128

/-- Six bytes as `%02x` each. -/
def macText (mac : Mac) : CString := mac.data.flatMap fun b => hexText 2 b.toNat

/-- `DB_FILE_PATH_FORMAT` -/
def databasePath (xid : UInt32) (mac : Mac) : CString :=
  "/var/dhcp/database/".toList ++ hexText 8 xid.toNat ++ "_".toList ++ macText mac ++
    ".dhcp".toList

/-- `METADATA_FORMAT` with the time and the hardware address of a message. -/
def metadataText (time : Nat) (mac : Mac) : CString :=
  "T:".toList ++ hexPadded 8 time ++ "CA:".toList ++ macText mac ++ "P:".toList

/-- The zeroed buffer after `snprintf`. -/
def metadata (time : Nat) (mac : Mac) : List UInt8 :=
  (asciiBytes ((metadataText time mac).take (metadataLen - 1)) ++
    List.replicate metadataLen 0).take metadataLen

/-- What one call of `database_store_message` writes: the metadata and the raw packet. -/
def storedRecord (time : Nat) (m : Message) : List UInt8 := metadata time m.mac ++ m.packet.data

/-- `database_store_message` when the file can be opened and all is written: the record is appended
to the file of the message's xid and hardware address, which is made if it does not exist. -/
def databaseStoreMessage (files : DatabaseFiles) (time : Nat) (m : Message) : DatabaseFiles :=
  fun path =>
    if path = databasePath m.xid m.mac then
      some ((files path).getD [] ++ storedRecord time m)
    else files path

/-- Messages stored one after the other, each at its time. -/
def databaseStoreAll (files : DatabaseFiles) (messages : List (Nat × Message)) : DatabaseFiles :=
  messages.foldl (fun files r => databaseStoreMessage files r.1 r.2) files

theorem length_metadata (time : Nat) (mac : Mac) : (metadata time mac).length = metadataLen := by
  rw [metadata, List.length_take, List.length_append, List.length_replicate]
  omega

theorem length_storedRecord (time : Nat) (m : Message) :
    (storedRecord time m).length = metadataLen + packetSize := by
  rw [storedRecord, List.length_append, length_metadata, Buffer.length_data]

/-- Bytes are read back from their digits. -/
theorem hexDigits_inj {bs cs : List UInt8} (h : (bs.flatMap fun b => hexText 2 b.toNat) =
    cs.flatMap fun b => hexText 2 b.toNat) : bs = cs := by
  induction bs generalizing cs with
  | nil =>
    cases cs with
    | nil => rfl
    | cons c cs =>
      have hlen := congrArg List.length h
      simp [length_hexText] at hlen
      omega
  | cons b bs ih =>
    cases cs with
    | nil =>
      have hlen := congrArg List.length h
      simp [length_hexText] at hlen
    | cons c cs =>
      rw [List.flatMap_cons, List.flatMap_cons] at h
      have hsame : (hexText 2 b.toNat).length = (hexText 2 c.toNat).length := by
        rw [length_hexText, length_hexText]
      obtain ⟨hdigits, hrest⟩ := List.append_inj h hsame
      have hbyte : b.toNat = c.toNat :=
        hexText_inj (by decide) b.toNat_lt c.toNat_lt hdigits
      rw [UInt8.toNat_inj.mp hbyte, ih hrest]

theorem macText_inj {mac mac' : Mac} (h : macText mac = macText mac') : mac = mac' := by
  have hdata : mac.data = mac'.data := hexDigits_inj h
  apply Buffer.ext_get
  intro i _
  rw [← Buffer.getD_data, ← Buffer.getD_data, hdata]

theorem length_macText (mac : Mac) : (macText mac).length = 12 := by
  rw [macText, List.length_flatMap]
  simp only [length_hexText, List.map_const', List.sum_replicate, Buffer.length_data]
  rfl

/-- Each xid and hardware address has a file of its own. -/
theorem databasePath_inj {xid xid' : UInt32} {mac mac' : Mac}
    (h : databasePath xid mac = databasePath xid' mac') : xid = xid' ∧ mac = mac' := by
  unfold databasePath at h
  have hmacs : (macText mac).length = (macText mac').length := by
    rw [length_macText, length_macText]
  rw [List.append_left_inj] at h
  obtain ⟨h, hmac⟩ := List.append_inj' h hmacs
  rw [List.append_left_inj, List.append_right_inj] at h
  have hfits (x : UInt32) : x.toNat < 16 ^ 8 := by
    have hx := x.toNat_lt
    omega
  have hnumber : xid.toNat = xid'.toNat :=
    hexText_inj (by decide) (hfits xid) (hfits xid') h
  exact ⟨UInt32.toNat_inj.mp hnumber, macText_inj hmac⟩

section StoreAll

variable {files : DatabaseFiles} {xid : UInt32} {mac : Mac} {messages : List (Nat × Message)}

/-- What is stored under other keys leaves the file of a key alone. -/
theorem databaseStoreAll_key : databaseStoreAll files messages (databasePath xid mac) =
    databaseStoreAll files (messages.filter fun r => decide (r.2.xid = xid ∧ r.2.mac = mac))
      (databasePath xid mac) := by
  suffices h : ∀ files' : DatabaseFiles,
      files (databasePath xid mac) = files' (databasePath xid mac) →
      databaseStoreAll files messages (databasePath xid mac) =
        databaseStoreAll files' (messages.filter fun r => decide (r.2.xid = xid ∧ r.2.mac = mac))
          (databasePath xid mac) from h files rfl
  induction messages generalizing files with
  | nil => exact fun _ h => h
  | cons r messages ih =>
    intro files' h
    by_cases hkey : r.2.xid = xid ∧ r.2.mac = mac
    · rw [List.filter_cons_of_pos (by simpa using hkey)]
      apply ih
      obtain ⟨rfl, rfl⟩ := hkey
      simp [databaseStoreMessage, h]
    · rw [List.filter_cons_of_neg (by simpa using hkey)]
      apply ih
      have hother : databasePath xid mac ≠ databasePath r.2.xid r.2.mac := fun heq =>
        hkey ⟨(databasePath_inj heq).1.symm, (databasePath_inj heq).2.symm⟩
      show databaseStoreMessage files r.1 r.2 (databasePath xid mac) = _
      rw [databaseStoreMessage, if_neg hother, h]

/-- A file exists when it was there before or is that of a stored message. -/
theorem databaseStoreAll_isSome {path : CString} :
    (databaseStoreAll files messages path).isSome ↔
      (files path).isSome ∨ ∃ r ∈ messages, databasePath r.2.xid r.2.mac = path := by
  induction messages generalizing files with
  | nil => simp [databaseStoreAll]
  | cons r messages ih =>
    rw [databaseStoreAll, List.foldl_cons, ← databaseStoreAll, ih, databaseStoreMessage]
    by_cases hpath : path = databasePath r.2.xid r.2.mac
    · simp [hpath]
    · simp [hpath, Ne.symm hpath]

theorem databaseStoreAll_append (more : List (Nat × Message)) :
    databaseStoreAll files (messages ++ more) =
      databaseStoreAll (databaseStoreAll files messages) more :=
  List.foldl_append

end StoreAll

/-- The file of a key holds the records of its messages in the order in which they were stored. -/
theorem databaseStoreAll_file {files : DatabaseFiles} {xid : UInt32} {mac : Mac}
    {messages : List (Nat × Message)} (h : ∀ r ∈ messages, r.2.xid = xid ∧ r.2.mac = mac) :
    (databaseStoreAll files messages (databasePath xid mac)).getD [] =
      (files (databasePath xid mac)).getD [] ++
        messages.flatMap fun r => storedRecord r.1 r.2 := by
  induction messages generalizing files with
  | nil => simp [databaseStoreAll]
  | cons r messages ih =>
    obtain ⟨hxid, hmac⟩ := h r List.mem_cons_self
    have hstep : databaseStoreMessage files r.1 r.2 (databasePath xid mac) =
        some ((files (databasePath xid mac)).getD [] ++ storedRecord r.1 r.2) := by
      rw [databaseStoreMessage, hxid, hmac, if_pos rfl]
    have hrest : ∀ r ∈ messages, r.2.xid = xid ∧ r.2.mac = mac := fun r hr =>
      h r (List.mem_cons_of_mem _ hr)
    rw [databaseStoreAll, List.foldl_cons, ← databaseStoreAll, ih hrest, hstep, Option.getD_some,
      List.flatMap_cons, List.append_assoc]

end DHCPServer
