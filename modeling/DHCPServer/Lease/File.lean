import DHCPServer.Framework.Fault
import DHCPServer.Framework.FileSystem
import DHCPServer.Framework.Json
import DHCPServer.Lease.Store
import DHCPServer.Utils.Xtoy

namespace DHCPServer

/-- `enum lease_status` -/
inductive LeaseStatus where
  | ok
  | «exists»
  | doesntExits
  | invalidJson
  | error
  deriving DecidableEq, Repr

-- The functions of `lease.c` on the text of the files, with a library that prints and parses
-- JSON. Opening, reading and writing a file succeed.
namespace LeaseFile

/-- `FILENAME_MAX` -/
def filenameMax : Nat := 4096

/-- `LEASE_PATH_PREFIX "%s.lease"` -/
def pathText (pool : CString) : CString :=
  "/etc/dhcp/lease/".toList ++ (pool ++ ".lease".toList)

/-- The path as `snprintf` cuts it off. -/
def leasePath (pool : CString) : CString := (pathText pool).take (filenameMax - 1)

/-- The file of a pool. Nothing keeps a `/` out of a pool's name, so two pools can have one file. -/
def leaseFile (pool : CString) : FileId := .ofPath (leasePath pool)

def leaseToCjson (lease : LeaseRecord) : Json :=
  .object [
    ("address".toList, .string (uint32ToIpv4Address lease.address)),
    ("subnet".toList, .string (uint32ToIpv4Address lease.subnet)),
    ("xid".toList, .number lease.xid.toNat),
    ("lease_start".toList, .number lease.leaseStart.toNat),
    ("lease_expire".toList, .number lease.leaseExpire.toNat),
    ("flags".toList, .number lease.flags.toNat),
    ("client_mac_address".toList, .string (hexBytes lease.clientMacAddress.data))]

/-- `json_to_lease`. The fields before the hardware address are stored in any case. -/
def jsonToLease (result : Lease) (json : Json) (poolName : CString) :
    Except Fault (LeaseStatus × Lease) := do
  let address ← deref (stringMember json "address".toList)
  let subnet ← deref (stringMember json "subnet".toList)
  let record : LeaseRecord := {
    address := ipv4AddressToUint32 address
    subnet := ipv4AddressToUint32 subnet
    xid := numberToUInt32 (numberMember json "xid".toList)
    leaseStart := numberToUInt32 (numberMember json "lease_start".toList)
    leaseExpire := numberToUInt32 (numberMember json "lease_expire".toList)
    flags := numberToUInt8 (numberMember json "flags".toList)
    clientMacAddress := result.record.clientMacAddress }
  match stringMember json "client_mac_address".toList with
  | none => return (.error, ⟨record, poolName⟩)
  | some mac =>
    match scanBytes 6 mac with
    | none => return (.invalidJson, ⟨record, poolName⟩)
    | some bytes =>
      return (.ok, ⟨{ record with clientMacAddress := (Buffer.zero 6).write 0 bytes }, poolName⟩)

/-- The index and the element of the first lease of an address, as both loops over the array look
for it. -/
def findLease (addr : UInt32) : List Json → Except Fault (Option (Nat × Json))
  | [] => return none
  | element :: elements => do
    let text ← deref (stringMember element "address".toList)
    if ipv4AddressToUint32 text = addr then return some (0, element)
    else
      let found ← findLease addr elements
      return found.map fun r => (r.1 + 1, r.2)

section Operations

variable (cjson : JsonCodec)

/-- `lease_open_lease_file`: a file that does not exist is made with an empty array. -/
def leaseOpenLeaseFile (fs : FileSystem) (pool : CString) : CString × FileSystem :=
  match fs.read (leasePath pool) with
  | some text => (text, fs)
  | none =>
    let text := cjson.print (.object [("leases".toList, .array [])])
    (text, fs.set (leasePath pool) text)

/-- The parsed file and its array. -/
def loadLeases (text : CString) : Option (Json × Json) := do
  let root ← cjson.parse text
  let leases ← root.getObjectItem "leases".toList
  return (root, leases)

def leaseRetrieve (fs : FileSystem) (result : Lease) (addr : UInt32) (poolName : CString) :
    Except Fault (LeaseStatus × Lease × FileSystem) := do
  let (text, fs) := leaseOpenLeaseFile cjson fs poolName
  match loadLeases cjson text with
  | none => return (.error, result, fs)
  | some (_, leases) =>
    match ← findLease addr leases.children with
    | none => return (.doesntExits, ⟨result.record, poolName⟩, fs)
    | some (_, element) =>
      let (status, result) ← jsonToLease result element poolName
      return (status, ⟨result.record, poolName⟩, fs)

/-- `lease_add`: the new text is written over the front of the old one. -/
def leaseAdd (fs : FileSystem) (lease : Lease) : LeaseStatus × FileSystem :=
  let (text, fs) := leaseOpenLeaseFile cjson fs lease.poolName
  match loadLeases cjson text with
  | none => (.error, fs)
  | some (root, _) =>
    let root := root.modifyObjectItem "leases".toList
      (Json.addItemToArray (leaseToCjson lease.record))
    let json := cjson.print root
    (.ok, fs.set (leasePath lease.poolName) (json ++ text.drop json.length))

/-- `lease_remove`: the file is cut to length 0 and written anew, also when nothing is removed. -/
def leaseRemove (fs : FileSystem) (address : UInt32) (poolName : CString) :
    Except Fault (LeaseStatus × FileSystem) := do
  let (text, fs) := leaseOpenLeaseFile cjson fs poolName
  match loadLeases cjson text with
  | none => return (.error, fs)
  | some (root, leases) =>
    match ← findLease address leases.children with
    | none => return (.doesntExits, fs.set (leasePath poolName) (cjson.print root))
    | some (index, _) =>
      let root := root.modifyObjectItem "leases".toList (Json.detachItemFromArray index)
      return (.ok, fs.set (leasePath poolName) (cjson.print root))

end Operations

/-- The JSON document that a file with these records holds. -/
def document (records : List LeaseRecord) : Json :=
  .object [("leases".toList, .array (records.map leaseToCjson))]

/-- What `lease.c` prints: a file without leases, or what it has parsed, with an element more or less
in the array. -/
inductive Printed (cjson : JsonCodec) : Json → Prop where
  | made : Printed cjson (document [])
  | kept {text : CString} {root leases : Json} (h : loadLeases cjson text = some (root, leases)) :
      Printed cjson root
  | added {text : CString} {root leases : Json} (h : loadLeases cjson text = some (root, leases))
      (record : LeaseRecord) : Printed cjson (root.modifyObjectItem "leases".toList
        (Json.addItemToArray (leaseToCjson record)))
  | removed {text : CString} {root leases : Json} (h : loadLeases cjson text = some (root, leases))
      (index : Nat) : Printed cjson (root.modifyObjectItem "leases".toList
        (Json.detachItemFromArray index))

/-- What is printed of lease files comes back when it is parsed. -/
abbrev Lawful (cjson : JsonCodec) : Prop := cjson.LawfulOn (Printed cjson)

/-- The path of the pool's file is not cut off. `open` refuses longer ones. -/
def Fits (pool : CString) : Prop := (pathText pool).length < filenameMax

/-- The records that the lease files stand for. -/
abbrev FileRecords := FileId → List LeaseRecord

/-- Every lease file holds its records, perhaps with old text behind them; a file that does not
exist stands for no records. -/
def Represents (cjson : JsonCodec) (fs : FileSystem) (records : FileRecords) : Prop :=
  ∀ pool, (fs (leaseFile pool) = none ∧ records (leaseFile pool) = []) ∨
    ∃ tail, fs (leaseFile pool) = some (cjson.print (document (records (leaseFile pool))) ++ tail)

section Elements

variable {r : LeaseRecord} {records : List LeaseRecord} {addr : UInt32}

theorem address_leaseToCjson : stringMember (leaseToCjson r) "address".toList =
    some (uint32ToIpv4Address r.address) := rfl

/-- What was written of a lease is read back. -/
theorem jsonToLease_leaseToCjson (result : Lease) (pool : CString) :
    jsonToLease result (leaseToCjson r) pool = .ok (.ok, ⟨r, pool⟩) := by
  have hsubnet : stringMember (leaseToCjson r) "subnet".toList =
      some (uint32ToIpv4Address r.subnet) := rfl
  have hxid : numberMember (leaseToCjson r) "xid".toList = some (r.xid.toNat : Rat) := rfl
  have hstart : numberMember (leaseToCjson r) "lease_start".toList =
      some (r.leaseStart.toNat : Rat) := rfl
  have hexpire : numberMember (leaseToCjson r) "lease_expire".toList =
      some (r.leaseExpire.toNat : Rat) := rfl
  have hflags : numberMember (leaseToCjson r) "flags".toList = some (r.flags.toNat : Rat) := rfl
  have hmac : stringMember (leaseToCjson r) "client_mac_address".toList =
      some (hexBytes r.clientMacAddress.data) := rfl
  have hbytes : scanBytes 6 (hexBytes r.clientMacAddress.data) = some r.clientMacAddress.data := by
    have h := scanBytes_hexBytes r.clientMacAddress.data
    rwa [Buffer.length_data] at h
  have hbuffer : (Buffer.zero 6).write 0 r.clientMacAddress.data = r.clientMacAddress := by
    apply Buffer.ext_get
    intro i hi
    rw [Buffer.get_write _ _ _ _ hi, if_pos (by simpa using hi), Nat.sub_zero, Buffer.getD_data]
  unfold jsonToLease
  simp only [address_leaseToCjson, hsubnet, hxid, hstart, hexpire, hflags, hmac, hbytes, hbuffer,
    deref, bind, Except.bind, pure, Except.pure, ipv4AddressToUint32_uint32ToIpv4Address,
    numberToUInt32_toNat, numberToUInt8_toNat]

/-- The address that the loop over the leases reads from an element. -/
def HasAddress (element : Json) (addr : UInt32) : Prop :=
  ∃ text, stringMember element "address".toList = some text ∧ ipv4AddressToUint32 text = addr

theorem hasAddress_leaseToCjson : HasAddress (leaseToCjson r) r.address :=
  ⟨_, rfl, ipv4AddressToUint32_uint32ToIpv4Address r.address⟩

theorem findLease_step {element : Json} {a : UInt32} (h : HasAddress element a) (es : List Json) :
    findLease addr (element :: es) = if a = addr then .ok (some (0, element))
      else (findLease addr es).map fun found => found.map fun q => (q.1 + 1, q.2) := by
  obtain ⟨text, htext, haddr⟩ := h
  rw [findLease, htext]
  simp only [deref, bind, Except.bind, haddr]
  split
  · rfl
  · cases findLease addr es <;> rfl

section Search

variable {R : Json → LeaseRecord → Prop} {elements : List Json}

theorem findLease_none (hR : ∀ e r, R e r → HasAddress e r.address)
    (h : List.Forall₂ R elements records) (hnone : records.find? (·.address == addr) = none) :
    findLease addr elements = .ok none := by
  induction h with
  | nil => rfl
  | @cons e r es rs hread _ ih =>
    rw [List.find?_eq_none] at hnone
    have hne : r.address ≠ addr := by simpa using hnone r List.mem_cons_self
    have hrest : rs.find? (·.address == addr) = none :=
      List.find?_eq_none.mpr fun q hq => hnone q (List.mem_cons_of_mem _ hq)
    rw [findLease_step (hR e r hread), if_neg hne, ih hrest]
    rfl

/-- The loop stops at the element of the first record of the address. -/
theorem findLease_some (hR : ∀ e r, R e r → HasAddress e r.address)
    (h : List.Forall₂ R elements records)
    (hsome : records.find? (·.address == addr) = some r) :
    ∃ i e, findLease addr elements = .ok (some (i, e)) ∧ R e r ∧
      List.Forall₂ R (elements.eraseIdx i) (records.eraseP (·.address == addr)) := by
  induction h with
  | nil => cases hsome
  | @cons e r' es rs hread hreads ih =>
    by_cases heq : r'.address = addr
    · rw [List.find?_cons_of_pos (by simpa using heq)] at hsome
      obtain rfl := Option.some.inj hsome
      refine ⟨0, e, ?_, hread, ?_⟩
      · rw [findLease_step (hR e r' hread), if_pos heq]
      · rw [List.eraseP_cons_of_pos (by simpa using heq)]
        exact hreads
    · rw [List.find?_cons_of_neg (by simpa using heq)] at hsome
      obtain ⟨i, found, hfind, hfound, herase⟩ := ih hsome
      refine ⟨i + 1, found, ?_, hfound, ?_⟩
      · rw [findLease_step (hR e r' hread), if_neg heq, hfind]
        rfl
      · rw [List.eraseP_cons_of_neg (by simpa using heq)]
        exact .cons hread herase

end Search

/-- The elements that were written for records. -/
theorem forall₂_leaseToCjson : List.Forall₂ (fun e r => e = leaseToCjson r)
    (records.map leaseToCjson) records :=
  List.forall₂_map_left_iff.mpr (List.forall₂_same.mpr fun _ _ => rfl)

theorem hasAddress_written (e : Json) (r : LeaseRecord) (h : e = leaseToCjson r) :
    HasAddress e r.address := h ▸ hasAddress_leaseToCjson

end Elements

section Paths

variable {pool other : CString}

theorem leasePath_eq (h : Fits pool) : leasePath pool = pathText pool := by
  apply List.take_of_length_le
  unfold Fits at h
  omega

/-- The name of a pool's file is none of the special ones. -/
theorem follow_lease (dir : FileId) (base : CString) :
    dir.follow (base ++ ".lease".toList) = dir ++ [base ++ ".lease".toList] := by
  have hlen : 6 ≤ (base ++ ".lease".toList).length := by simp
  apply FileId.follow_eq
  all_goals
    intro h
    rw [h] at hlen
    revert hlen
    decide

/-- A path that is not cut off leads to the file with the name behind its last `/`. -/
theorem ofPath_lease {dir base : CString} (hdir : dir ≠ []) (hbase : '/' ∉ base) :
    FileId.ofPath (dir ++ '/' :: (base ++ ".lease".toList)) =
      FileId.ofPath dir ++ [base ++ ".lease".toList] := by
  have hname : '/' ∉ base ++ ".lease".toList := by
    rw [List.mem_append, not_or]
    exact ⟨hbase, by decide⟩
  rw [FileId.ofPath_append hdir hname, follow_lease]

/-- The directory of the lease files. -/
def leaseDirectory : FileId := ["etc".toList, "dhcp".toList, "lease".toList]

theorem ofPath_directory : FileId.ofPath "/etc/dhcp/lease".toList = leaseDirectory := by
  have hsplit : "/etc/dhcp/lease".toList =
      [] ++ '/' :: ("etc".toList ++ '/' :: ("dhcp".toList ++ '/' :: "lease".toList)) := rfl
  rw [FileId.ofPath, hsplit, List.splitOn_append_cons_self, List.splitOn_append_cons_self,
    List.splitOn_append_cons_self, List.splitOn_nil, List.splitOn_eq_singleton (by decide),
    List.splitOn_eq_singleton (by decide), List.splitOn_eq_singleton (by decide)]
  rfl

/-- A pool whose name has no `/` has its file in the directory, under its own name. -/
theorem leaseFile_eq (hp : Fits pool) (hslash : '/' ∉ pool) :
    leaseFile pool = leaseDirectory ++ [pool ++ ".lease".toList] := by
  have hpath : pathText pool = "/etc/dhcp/lease".toList ++ '/' :: (pool ++ ".lease".toList) := rfl
  rw [leaseFile, leasePath_eq hp, hpath, ofPath_lease (by decide) hslash, ofPath_directory]

/-- Two such pools have different files. -/
theorem leaseFile_inj (hp : Fits pool) (hslash : '/' ∉ pool) (ho : Fits other)
    (hother : '/' ∉ other) (h : leaseFile other = leaseFile pool) : other = pool := by
  rw [leaseFile_eq hp hslash, leaseFile_eq ho hother, List.append_cancel_left_eq,
    List.singleton_inj] at h
  exact List.append_cancel_right h

end Paths

section Files

variable {cjson : JsonCodec} {fs : FileSystem} {records : FileRecords}

/-- The records with others in the file of a pool. -/
def FileRecords.set (records : FileRecords) (pool : CString) (rs : List LeaseRecord) : FileRecords :=
  fun file => if file = leaseFile pool then rs else records file

theorem Represents.set (h : Represents cjson fs records) (pool : CString) (rs : List LeaseRecord)
    (tail : CString) :
    Represents cjson (fs.set (leasePath pool) (cjson.print (document rs) ++ tail))
      (records.set pool rs) := by
  intro q
  by_cases hqp : leaseFile q = leaseFile pool
  · right
    rw [FileRecords.set, if_pos hqp]
    exact ⟨tail, if_pos hqp⟩
  · rw [FileRecords.set, if_neg hqp, FileSystem.set_other hqp]
    exact h q

/-- Opening a file finds the pool's records in it, and makes it if need be. -/
theorem Represents.open (h : Represents cjson fs records) (pool : CString) :
    ∃ tail fs', leaseOpenLeaseFile cjson fs pool =
      (cjson.print (document (records (leaseFile pool))) ++ tail, fs') ∧
        Represents cjson fs' records := by
  unfold leaseOpenLeaseFile
  rcases h pool with ⟨hnone, hnil⟩ | ⟨tail, htext⟩
  · rw [FileSystem.read, ← leaseFile, hnone, hnil]
    refine ⟨[], _, by rw [List.append_nil]; rfl, ?_⟩
    have hset := h.set pool [] []
    rw [List.append_nil] at hset
    have hsame : records.set pool [] = records := by
      funext file
      unfold FileRecords.set
      split
      · rename_i hfile
        rw [hfile, hnil]
      · rfl
    rwa [hsame] at hset
  · rw [FileSystem.read, ← leaseFile, htext]
    exact ⟨tail, fs, rfl, h⟩

theorem document_add (rs : List LeaseRecord) (r : LeaseRecord) :
    (document rs).modifyObjectItem "leases".toList (Json.addItemToArray (leaseToCjson r)) =
      document (rs ++ [r]) := by
  simp [document, Json.modifyObjectItem, Json.modifyMembers, Json.sameKey, Json.addItemToArray]

theorem loadLeases_of_parse {rs : List LeaseRecord} {text : CString}
    (hparse : cjson.parse text = some (document rs)) :
    loadLeases cjson text = some (document rs, .array (rs.map leaseToCjson)) := by
  have hleases : (document rs).getObjectItem "leases".toList =
      some (.array (rs.map leaseToCjson)) := rfl
  simp only [loadLeases, hparse, hleases, bind, Option.bind, pure]

/-- Each document is printed, with one record more than the last. -/
theorem printed_document (hc : Lawful cjson) (rs : List LeaseRecord) :
    Printed cjson (document rs) := by
  induction rs using List.reverseRecOn with
  | nil => exact .made
  | append_singleton rs r ih =>
    exact document_add rs r ▸ .added (loadLeases_of_parse (hc.inverse _ ih)) r

theorem parse_document (hc : Lawful cjson) (rs : List LeaseRecord) (tail : CString) :
    cjson.parse (cjson.print (document rs) ++ tail) = some (document rs) :=
  hc.trailing _ tail (printed_document hc rs)

theorem loadLeases_document (hc : Lawful cjson) (rs : List LeaseRecord) (tail : CString) :
    loadLeases cjson (cjson.print (document rs) ++ tail) =
      some (document rs, .array (rs.map leaseToCjson)) :=
  loadLeases_of_parse (parse_document hc rs tail)

/-- `lease_retrieve` gives the earliest record of the address and changes no record. -/
theorem Represents.retrieve (hc : Lawful cjson) (h : Represents cjson fs records) (pool : CString)
    (result : Lease) (addr : UInt32) :
    ∃ fs', Represents cjson fs' records ∧ leaseRetrieve cjson fs result addr pool =
      .ok (match (records (leaseFile pool)).find? (·.address == addr) with
        | some r => (.ok, ⟨r, pool⟩, fs')
        | none => (.doesntExits, ⟨result.record, pool⟩, fs')) := by
  obtain ⟨tail, fs', hopen, hrep⟩ := h.open pool
  refine ⟨fs', hrep, ?_⟩
  unfold leaseRetrieve
  rw [hopen]
  simp only [loadLeases_document hc, Json.children]
  cases hfind : (records (leaseFile pool)).find? (·.address == addr) with
  | none =>
    rw [findLease_none hasAddress_written forall₂_leaseToCjson hfind]
    rfl
  | some r =>
    obtain ⟨i, e, hfound, rfl, -⟩ :=
      findLease_some hasAddress_written forall₂_leaseToCjson hfind
    simp only [hfound, bind, Except.bind, jsonToLease_leaseToCjson]
    rfl

/-- `lease_add` appends the record, whatever text the file had behind its document. -/
theorem Represents.add (hc : Lawful cjson) (h : Represents cjson fs records) (lease : Lease) :
    ∃ fs', leaseAdd cjson fs lease = (.ok, fs') ∧ Represents cjson fs'
      (records.set lease.poolName (records (leaseFile lease.poolName) ++ [lease.record])) := by
  obtain ⟨tail, fs', hopen, hrep⟩ := h.open lease.poolName
  let rs := records (leaseFile lease.poolName)
  let json := cjson.print (document (rs ++ [lease.record]))
  let behind := (cjson.print (document rs) ++ tail).drop json.length
  refine ⟨fs'.set (leasePath lease.poolName) (json ++ behind), ?_, hrep.set _ _ behind⟩
  rw [leaseAdd, hopen]
  simp only [loadLeases_document hc, document_add]
  rfl

/-- `lease_remove` takes out the earliest record of the address. -/
theorem Represents.remove (hc : Lawful cjson) (h : Represents cjson fs records) (pool : CString)
    (addr : UInt32) :
    ∃ fs', leaseRemove cjson fs addr pool = .ok (if (records (leaseFile pool)).any (·.address == addr)
        then .ok else .doesntExits, fs') ∧
      Represents cjson fs'
        (records.set pool ((records (leaseFile pool)).eraseP (·.address == addr))) := by
  obtain ⟨tail, fs', hopen, hrep⟩ := h.open pool
  unfold leaseRemove
  rw [hopen]
  simp only [loadLeases_document hc, Json.children]
  have hset := fun rs => hrep.set pool rs []
  simp only [List.append_nil] at hset
  cases hfind : (records (leaseFile pool)).find? (·.address == addr) with
  | none =>
    have hany : (records (leaseFile pool)).any (·.address == addr) = false := by
      rw [List.any_eq_false]
      exact List.find?_eq_none.mp hfind
    have herase : (records (leaseFile pool)).eraseP (·.address == addr) =
        records (leaseFile pool) :=
      List.eraseP_of_forall_not fun r hr => by simpa using List.find?_eq_none.mp hfind r hr
    refine ⟨fs'.set (leasePath pool) (cjson.print (document (records (leaseFile pool)))), ?_, ?_⟩
    · rw [findLease_none hasAddress_written forall₂_leaseToCjson hfind, hany]
      rfl
    · rw [herase]
      exact hset (records (leaseFile pool))
  | some r =>
    have hany : (records (leaseFile pool)).any (·.address == addr) = true :=
      List.any_eq_true.mpr ⟨r, List.mem_of_find?_eq_some hfind,
        List.find?_some (p := fun x : LeaseRecord => x.address == addr) hfind⟩
    obtain ⟨i, e, hfound, -, hleft⟩ :=
      findLease_some hasAddress_written forall₂_leaseToCjson hfind
    have herase : ((records (leaseFile pool)).map leaseToCjson).eraseIdx i =
        ((records (leaseFile pool)).eraseP (·.address == addr)).map leaseToCjson :=
      List.forall₂_eq_eq_eq ▸ List.forall₂_map_right_iff.mpr hleft
    have hroot : (document (records (leaseFile pool))).modifyObjectItem "leases".toList
        (Json.detachItemFromArray i) =
          document ((records (leaseFile pool)).eraseP (·.address == addr)) := by
      simp [document, Json.modifyObjectItem, Json.modifyMembers, Json.sameKey,
        Json.detachItemFromArray, herase]
    refine ⟨_, ?_, hset _⟩
    simp only [hfound, bind, Except.bind, hany, hroot]
    rfl

end Files

/-- What is done to the lease files. -/
inductive LeaseOp where
  | add (lease : Lease)
  | remove (address : UInt32) (poolName : CString)
  | retrieve (address : UInt32) (poolName : CString)

namespace LeaseOp

def pool : LeaseOp → CString
  | .add lease => lease.poolName
  | .remove _ poolName | .retrieve _ poolName => poolName

/-- The operation on the files; what a retrieval finds is not kept. -/
def perform (cjson : JsonCodec) (fs : FileSystem) : LeaseOp → Except Fault FileSystem
  | .add lease => return (leaseAdd cjson fs lease).2
  | .remove address poolName => do
    let (_, fs) ← leaseRemove cjson fs address poolName
    return fs
  | .retrieve address poolName => do
    let result : Lease := ⟨⟨0, 0, 0, 0, 0, 0, Buffer.zero 6⟩, []⟩
    let (_, _, fs) ← leaseRetrieve cjson fs result address poolName
    return fs

/-- What the operation makes of the records of the file it works on. -/
def edit (records : List LeaseRecord) : LeaseOp → List LeaseRecord
  | .add lease => records ++ [lease.record]
  | .remove address _ => records.eraseP (·.address == address)
  | .retrieve _ _ => records

/-- What the operation means for the records of a file. -/
def record (file : FileId) (records : List LeaseRecord) (op : LeaseOp) : List LeaseRecord :=
  if leaseFile op.pool = file then op.edit records else records

end LeaseOp

/-- The records of a pool's file that were added and not removed, earliest first. -/
def recordsOf (ops : List LeaseOp) (pool : CString) : List LeaseRecord :=
  ops.foldl (LeaseOp.record (leaseFile pool)) []

def run (cjson : JsonCodec) (fs : FileSystem) (ops : List LeaseOp) : Except Fault FileSystem :=
  ops.foldlM (LeaseOp.perform cjson) fs

section Runs

variable {cjson : JsonCodec} {fs : FileSystem} {records : FileRecords}

/-- Changing the records of one file. -/
theorem record_eq_set (records : FileRecords) (op : LeaseOp) :
    (fun file => op.record file (records file)) =
      records.set op.pool (op.edit (records (leaseFile op.pool))) := by
  funext file
  unfold LeaseOp.record FileRecords.set
  by_cases h : file = leaseFile op.pool
  · rw [if_pos h, if_pos h.symm, h]
  · rw [if_neg h, if_neg (Ne.symm h)]

/-- The step lemma. -/
theorem Represents.perform (hc : Lawful cjson) (h : Represents cjson fs records) (op : LeaseOp) :
    ∃ fs', op.perform cjson fs = .ok fs' ∧
      Represents cjson fs' fun file => op.record file (records file) := by
  rw [record_eq_set]
  cases op with
  | add lease =>
    obtain ⟨fs', hadd, hrep⟩ := h.add hc lease
    exact ⟨fs', by simp only [LeaseOp.perform, hadd]; rfl, hrep⟩
  | remove address pool =>
    obtain ⟨fs', hremove, hrep⟩ := h.remove hc pool address
    refine ⟨fs', ?_, hrep⟩
    simp only [LeaseOp.perform, hremove, bind, Except.bind]
    rfl
  | retrieve address pool =>
    obtain ⟨fs', hrep, hretrieve⟩ :=
      h.retrieve hc pool ⟨⟨0, 0, 0, 0, 0, 0, Buffer.zero 6⟩, []⟩ address
    have hsame : records.set pool (records (leaseFile pool)) = records := by
      funext file
      unfold FileRecords.set
      split
      · rename_i hfile
        rw [hfile]
      · rfl
    refine ⟨fs', ?_, hsame.symm ▸ hrep⟩
    simp only [LeaseOp.perform, hretrieve, bind, Except.bind]
    cases (records (leaseFile pool)).find? (·.address == address) with
    | none => rfl
    | some r => rfl

/-- The run lemma. -/
theorem Represents.run (hc : Lawful cjson) (h : Represents cjson fs records) (ops : List LeaseOp) :
    ∃ fs', run cjson fs ops = .ok fs' ∧
      Represents cjson fs' fun file => ops.foldl (LeaseOp.record file) (records file) := by
  induction ops generalizing fs records with
  | nil => exact ⟨fs, rfl, h⟩
  | cons op ops ih =>
    obtain ⟨fs₁, hop, h₁⟩ := h.perform hc op
    obtain ⟨fs', hrun, h'⟩ := ih h₁
    refine ⟨fs', ?_, h'⟩
    unfold LeaseFile.run
    rw [List.foldlM_cons, hop]
    exact hrun

/-- A pool name that is used as it is as the name of a file. -/
structure Plain (pool : CString) : Prop where
  fits : Fits pool
  slash : '/' ∉ pool

theorem Plain.ne {pool other : CString} (hp : Plain pool) (ho : Plain other) (h : other ≠ pool) :
    leaseFile other ≠ leaseFile pool :=
  fun heq => h (leaseFile_inj hp.fits hp.slash ho.fits ho.slash heq)

/-- With such names only the operations on the pool itself count for its records. -/
theorem recordsOf_plain {ops : List LeaseOp} {pool : CString} (hp : Plain pool)
    (hops : ∀ op ∈ ops, Plain op.pool) :
    recordsOf ops pool = (ops.filter (·.pool == pool)).foldl LeaseOp.edit [] := by
  unfold recordsOf
  generalize ([] : List LeaseRecord) = rs
  induction ops generalizing rs with
  | nil => rfl
  | cons op ops ih =>
    have hrest := fun rs => ih (fun o ho => hops o (List.mem_cons_of_mem _ ho)) rs
    rw [List.foldl_cons, hrest, LeaseOp.record]
    by_cases h : op.pool = pool
    · rw [List.filter_cons_of_pos (by simpa using h), List.foldl_cons, if_pos (by rw [h])]
    · rw [List.filter_cons_of_neg (by simpa using h),
        if_neg (hp.ne (hops op List.mem_cons_self) h)]

/-- The operation on the lease store of the server. -/
def LeaseOp.onStore (store : LeaseStore) : LeaseOp → LeaseStore
  | .add lease => (DHCPServer.leaseAdd true store lease).2
  | .remove address poolName => (DHCPServer.leaseRemove .done store address poolName).2
  | .retrieve _ _ => store

/-- The store has the records of the files of these pools, each of which has a file of its own. -/
structure StoreOf (names : List CString) (store : LeaseStore) (records : FileRecords) : Prop where
  same : ∀ n ∈ names, store n = records (leaseFile n)
  own : ∀ p ∈ names, ∀ q ∈ names, p ≠ q → leaseFile p ≠ leaseFile q

theorem LeaseOp.onStore_eq (store : LeaseStore) (op : LeaseOp) :
    op.onStore store = store.set op.pool (op.edit (store op.pool)) := by
  cases op with
  | add | remove => rfl
  | retrieve _ pool =>
    funext n
    show store n = if n = pool then store pool else store n
    split
    · rename_i hn
      rw [hn]
    · rfl

theorem StoreOf.perform {names : List CString} {store : LeaseStore}
    (h : StoreOf names store records) {op : LeaseOp} (hop : op.pool ∈ names) :
    StoreOf names (op.onStore store) fun file => op.record file (records file) := by
  refine ⟨fun n hn => ?_, h.own⟩
  rw [LeaseOp.onStore_eq, LeaseOp.record]
  by_cases hne : n = op.pool
  · rw [hne, LeaseStore.set_same, if_pos rfl, h.same op.pool hop]
  · rw [LeaseStore.set_other hne, if_neg (h.own _ hop n hn (Ne.symm hne)), h.same n hn]

theorem StoreOf.run {names : List CString} {store : LeaseStore} (h : StoreOf names store records)
    {ops : List LeaseOp} (hops : ∀ op ∈ ops, op.pool ∈ names) :
    StoreOf names (ops.foldl LeaseOp.onStore store) fun file =>
      ops.foldl (LeaseOp.record file) (records file) := by
  induction ops generalizing store records with
  | nil => exact h
  | cons op ops ih =>
    exact ih (h.perform (hops op List.mem_cons_self)) fun o ho => hops o (List.mem_cons_of_mem _ ho)

end Runs

/-- What the calls answer after some operations when the pool's records are these. -/
structure Answers (cjson : JsonCodec) (fs : FileSystem) (pool : CString)
    (records : List LeaseRecord) : Prop where
  retrieve : ∀ result addr, ∃ fs', leaseRetrieve cjson fs result addr pool =
    .ok (match records.find? (·.address == addr) with
      | some r => (.ok, ⟨r, pool⟩, fs')
      | none => (.doesntExits, ⟨result.record, pool⟩, fs'))
  remove : ∀ addr, ∃ fs', leaseRemove cjson fs addr pool =
    .ok (if records.any (·.address == addr) then .ok else .doesntExits, fs')
  add : ∀ record, (leaseAdd cjson fs ⟨record, pool⟩).1 = .ok

/-- From missing files, after any additions, removals and retrievals, the files stand for the lists
of the records that were added to them and not removed: a retrieval gives the earliest record of
an address with all its fields, or reports that there is none; a removal succeeds exactly when
there is one, and additions always succeed. Where no name has a `/` in it, a pool's records are
those of the operations on this pool. The lease store that the server works on has the same
records, for pools of which each has a file of its own. -/
theorem leaseFiles_refine_records (cjson : JsonCodec) (hc : Lawful cjson) (fs : FileSystem)
    (hmissing : ∀ pool, fs (leaseFile pool) = none) (ops : List LeaseOp) :
    ∃ fs', run cjson fs ops = .ok fs' ∧ (∀ pool, Answers cjson fs' pool (recordsOf ops pool)) ∧
      (∀ pool, Plain pool → (∀ op ∈ ops, Plain op.pool) →
        recordsOf ops pool = (ops.filter (·.pool == pool)).foldl LeaseOp.edit []) ∧
      ∀ names : List CString, (∀ p ∈ names, ∀ q ∈ names, p ≠ q → leaseFile p ≠ leaseFile q) →
        (∀ op ∈ ops, op.pool ∈ names) →
        ∀ n ∈ names, ops.foldl LeaseOp.onStore (fun _ => []) n = recordsOf ops n := by
  have hempty : Represents cjson fs fun _ => [] := fun pool => .inl ⟨hmissing pool, rfl⟩
  obtain ⟨fs', hrun, hrep⟩ := hempty.run hc ops
  have hstore : ∀ names : List CString,
      (∀ p ∈ names, ∀ q ∈ names, p ≠ q → leaseFile p ≠ leaseFile q) →
      (∀ op ∈ ops, op.pool ∈ names) →
      ∀ n ∈ names, ops.foldl LeaseOp.onStore (fun _ => []) n = recordsOf ops n := by
    intro names hown hops
    have hsame : StoreOf names (fun _ => []) fun _ => [] := ⟨fun _ _ => rfl, hown⟩
    exact (hsame.run hops).same
  refine ⟨fs', hrun, fun pool => ⟨?_, ?_, ?_⟩, fun pool => recordsOf_plain, hstore⟩
  · intro result addr
    obtain ⟨fs'', -, hretrieve⟩ := hrep.retrieve hc pool result addr
    exact ⟨fs'', hretrieve⟩
  · intro addr
    obtain ⟨fs'', hremove, -⟩ := hrep.remove hc pool addr
    exact ⟨fs'', hremove⟩
  · intro record
    obtain ⟨fs'', hadd, -⟩ := hrep.add hc ⟨record, pool⟩
    rw [hadd]

/-- Two records of 10.0.0.5 in one pool, one of them removed, and one in another pool. -/
def firstRecord : LeaseRecord :=
  ⟨0x0a000005, 0xffffff00, 7, 1000, 4600, 0, (Buffer.zero 6).write 0 [2, 0, 94, 16, 0, 255]⟩

def secondRecord : LeaseRecord := { firstRecord with xid := 0xffffffff, flags := 1 }

def threeLeases : List LeaseOp :=
  [.add ⟨firstRecord, ['a']⟩, .add ⟨secondRecord, ['a']⟩, .add ⟨firstRecord, ['b']⟩,
    .remove 0x0a000005 ['a']]

theorem plain_short : Plain ['a'] ∧ Plain ['b'] := by
  have ha : Fits ['a'] := by
    unfold Fits
    decide
  have hb : Fits ['b'] := by
    unfold Fits
    decide
  exact ⟨⟨ha, by decide⟩, ⟨hb, by decide⟩⟩

theorem threeLeases_plain : ∀ op ∈ threeLeases, Plain op.pool := by
  obtain ⟨ha, hb⟩ := plain_short
  intro op hop
  simp only [threeLeases, List.mem_cons, List.not_mem_nil, or_false] at hop
  obtain rfl | rfl | rfl | rfl := hop
  · exact ha
  · exact ha
  · exact hb
  · exact ha

theorem threeLeases_retrieved :
    ∃ fs' fs'', run JsonText.codec (fun _ => none) threeLeases = .ok fs' ∧
      leaseRetrieve JsonText.codec fs' ⟨firstRecord, []⟩ 0x0a000005 ['a'] =
        .ok (.ok, ⟨secondRecord, ['a']⟩, fs'') := by
  obtain ⟨fs', hrun, hpools, hplain, -⟩ := leaseFiles_refine_records JsonText.codec
    (JsonText.codec_lawful _) (fun _ => none) (fun _ => rfl) threeLeases
  obtain ⟨fs'', hretrieve⟩ := (hpools ['a']).retrieve ⟨firstRecord, []⟩ 0x0a000005
  refine ⟨fs', fs'', hrun, hretrieve.trans ?_⟩
  have hrecords : recordsOf threeLeases ['a'] = [secondRecord] :=
    hplain ['a'] plain_short.1 threeLeases_plain
  rw [hrecords]
  rfl

/-- The pools `a` and `./a` have one file. -/
theorem leaseFile_shared : leaseFile "./a".toList = leaseFile ['a'] := by
  have hfits : Fits "./a".toList := by
    unfold Fits
    decide
  have hpath : pathText "./a".toList =
      "/etc/dhcp/lease".toList ++ '/' :: ['.'] ++ '/' :: (['a'] ++ ".lease".toList) := rfl
  rw [leaseFile, leasePath_eq hfits, hpath, ofPath_lease (by decide) (by decide),
    FileId.ofPath_append (by decide) (by decide), ofPath_directory,
    leaseFile_eq plain_short.1.fits plain_short.1.slash]
  rfl

/-- A lease that is added to the pool `./a` is retrieved from the pool `a`. -/
theorem leaseFiles_not_separate :
    ¬∀ (cjson : JsonCodec) (ops : List LeaseOp) (fs : FileSystem) (pool : CString), Lawful cjson →
      run cjson (fun _ => none) ops = .ok fs →
      Answers cjson fs pool ((ops.filter (·.pool == pool)).foldl LeaseOp.edit []) := by
  intro h
  have hempty : Represents JsonText.codec (fun _ => none) fun _ => [] := fun _ => .inl ⟨rfl, rfl⟩
  obtain ⟨fs, hrun, hrep⟩ :=
    hempty.run (JsonText.codec_lawful _) [.add ⟨firstRecord, "./a".toList⟩]
  have hanswers := h JsonText.codec _ fs ['a'] (JsonText.codec_lawful _) hrun
  obtain ⟨fs₁, hnone⟩ := hanswers.retrieve ⟨firstRecord, []⟩ 0x0a000005
  obtain ⟨fs₂, -, hsome⟩ :=
    hrep.retrieve (JsonText.codec_lawful _) ['a'] ⟨firstRecord, []⟩ 0x0a000005
  have hfile : LeaseOp.record (leaseFile ['a']) [] (.add ⟨firstRecord, "./a".toList⟩) =
      [firstRecord] := if_pos leaseFile_shared
  rw [List.foldl_cons, List.foldl_nil, hfile, hnone] at hsome
  cases hsome

end LeaseFile

end DHCPServer
