import DHCPServer.Framework.JsonNode
import DHCPServer.Lease.File
import DHCPServer.Lease.Load

namespace DHCPServer

namespace LeaseFile

section Operations

variable (cjson : JsonCodec) (now : UInt32)

/-- One pass of the loop of `load_pool_leases`. The lease is the one the element before was read
into; it is used also where the element could not be read. -/
def loadElement (st : Lease × FileSystem × AddressPool) (element : Json) :
    Except Fault (Lease × FileSystem × AddressPool) := do
  let (lease, fs, pool) := st
  let (_, lease) ← jsonToLease lease element pool.name
  if lease.record.leaseExpire ≤ now then
    let (_, fs) ← leaseRemove cjson fs lease.record.address lease.poolName
    return (lease, fs, pool)
  else
    let (_, pool) ← addressPoolSetAddressAllocation pool lease.record.address
    return (lease, fs, pool)

def emptyLease : Lease := ⟨⟨0, 0, 0, 0, 0, 0, Buffer.zero 6⟩, []⟩

/-- `load_pool_leases` with its return value. -/
def loadPoolLeases (fs : FileSystem) (pool : AddressPool) :
    Except Fault (Int × FileSystem × AddressPool) := do
  let (text, fs) := leaseOpenLeaseFile cjson fs pool.name
  match loadLeases cjson text with
  | none => return (-1, fs, pool)
  | some (_, leases) =>
    let (_, fs, pool) ← leases.children.foldlM (loadElement cjson now) (emptyLease, fs, pool)
    return (0, fs, pool)

/-- `init_load_persisten_leases`: a pool whose file cannot be loaded stays as it is. -/
def initLoadPersistenLeases : FileSystem → List AddressPool →
    Except Fault (FileSystem × List AddressPool)
  | fs, [] => return (fs, [])
  | fs, pool :: pools => do
    let (_, fs, pool) ← loadPoolLeases cjson now fs pool
    let (fs, pools) ← initLoadPersistenLeases fs pools
    return (fs, pool :: pools)

end Operations

/-- The element of a lease file is well formed and reads as the record. -/
def ReadsAs (pool : CString) (element : Json) (r : LeaseRecord) : Prop :=
  ∀ result, jsonToLease result element pool = .ok (.ok, ⟨r, pool⟩)

/-- The text is a document whose leases are well formed and read as the records. -/
def HoldsRecords (cjson : JsonCodec) (pool text : CString) (records : List LeaseRecord) : Prop :=
  ∃ root leases, loadLeases cjson text = some (root, leases) ∧
    List.Forall₂ (ReadsAs pool) leases.children records

/-- The lease file of a pool holds the records. A file that does not exist holds none. -/
def WellFormedFile (cjson : JsonCodec) (fs : FileSystem) (pool : CString)
    (records : List LeaseRecord) : Prop :=
  (fs (leaseFile pool) = none ∧ records = []) ∨
    ∃ text, fs (leaseFile pool) = some text ∧ HoldsRecords cjson pool text records

/-- The lease files of the pools hold the records of the store, and a file that two of the pools
share holds none. -/
structure WellFormedFiles (cjson : JsonCodec) (names : List CString) (fs : FileSystem)
    (store : LeaseStore) : Prop where
  file : ∀ n ∈ names, WellFormedFile cjson fs n (store n)
  shared : ∀ p ∈ names, ∀ q ∈ names, p ≠ q → leaseFile p = leaseFile q → store p = []

section Elements

variable {pool : CString} {element : Json} {r : LeaseRecord}

/-- Both loops read the address of an element alike. -/
theorem ReadsAs.address (h : ReadsAs pool element r) : HasAddress element r.address := by
  have hread := h emptyLease
  unfold jsonToLease at hread
  obtain ⟨text, htext, hread⟩ := seq_ok.mp hread
  obtain ⟨subnet, -, hread⟩ := seq_ok.mp hread
  refine ⟨text, deref_eq_ok.mp htext, ?_⟩
  split at hread
  · cases hread
  · split at hread
    · cases hread
    · cases hread
      rfl

end Elements

section Files

variable {cjson : JsonCodec} {names : List CString} {fs : FileSystem} {store : LeaseStore}
  {n : CString}

/-- Of an array without elements it does not matter whose file it is in. -/
theorem HoldsRecords.nil {p q text : CString} (h : HoldsRecords cjson p text []) :
    HoldsRecords cjson q text [] := by
  obtain ⟨root, leases, hload, hreads⟩ := h
  cases hchildren : leases.children with
  | nil => exact ⟨root, leases, hload, hchildren ▸ .nil⟩
  | cons element elements =>
    rw [hchildren] at hreads
    cases hreads

theorem WellFormedFiles.set (h : WellFormedFiles cjson names fs store) (hn : n ∈ names)
    {text : CString} {records : List LeaseRecord} (htext : HoldsRecords cjson n text records)
    (hnil : store n = [] → records = []) :
    WellFormedFiles cjson names (fs.set (leasePath n) text) (store.set n records) := by
  constructor
  · intro q hq
    by_cases hqn : q = n
    · subst hqn
      exact .inr ⟨text, if_pos rfl, by rwa [LeaseStore.set_same]⟩
    · rw [LeaseStore.set_other hqn]
      by_cases hfile : leaseFile q = leaseFile n
      · -- the shared file has no records, and the new text has none
        rw [h.shared q hq n hn hqn hfile]
        rw [hnil (h.shared n hn q hq (Ne.symm hqn) hfile.symm)] at htext
        exact .inr ⟨text, if_pos hfile, htext.nil⟩
      · unfold WellFormedFile
        rw [FileSystem.set_other hfile]
        exact h.file q hq
  · intro p hp q hq hpq hfile
    by_cases hpn : p = n
    · subst hpn
      rw [LeaseStore.set_same]
      exact hnil (h.shared p hp q hq hpq hfile)
    · rw [LeaseStore.set_other hpn]
      exact h.shared p hp q hq hpq hfile

theorem holdsRecords_parse {root leases : Json} {records : List LeaseRecord} (hc : Lawful cjson)
    (hprinted : Printed cjson root)
    (hleases : root.getObjectItem "leases".toList = some leases)
    (hreads : List.Forall₂ (ReadsAs n) leases.children records) :
    HoldsRecords cjson n (cjson.print root) records := by
  refine ⟨root, leases, ?_, hreads⟩
  simp only [loadLeases, hc.inverse _ hprinted, hleases, bind, Option.bind, pure]

/-- A file that is opened holds the same records as before. -/
theorem WellFormedFiles.open (hc : Lawful cjson) (h : WellFormedFiles cjson names fs store)
    (hn : n ∈ names) : ∃ text fs', leaseOpenLeaseFile cjson fs n = (text, fs') ∧
      HoldsRecords cjson n text (store n) ∧ WellFormedFiles cjson names fs' store := by
  unfold leaseOpenLeaseFile
  rw [FileSystem.read, ← leaseFile]
  rcases h.file n hn with ⟨hnone, hnil⟩ | ⟨text, htext, hholds⟩
  · rw [hnone]
    have hholds : HoldsRecords cjson n
        (cjson.print (.object [("leases".toList, .array [])])) (store n) := by
      rw [hnil]
      exact holdsRecords_parse hc .made rfl .nil
    have hset := h.set hn hholds id
    have hsame : store.set n (store n) = store := by
      funext q
      unfold LeaseStore.set
      split
      · rename_i hq
        rw [hq]
      · rfl
    rw [hsame] at hset
    exact ⟨_, _, rfl, hholds, hset⟩
  · rw [htext]
    exact ⟨text, fs, rfl, hholds, h⟩

/-- `lease_remove` takes the first record of the address out of a well-formed file, which stays
well formed. -/
theorem WellFormedFiles.remove (hc : Lawful cjson) (h : WellFormedFiles cjson names fs store)
    (hn : n ∈ names) (addr : UInt32) : ∃ status fs', leaseRemove cjson fs addr n = .ok (status, fs') ∧
      WellFormedFiles cjson names fs' (DHCPServer.leaseRemove .done store addr n).2 := by
  obtain ⟨text, fs', hopen, ⟨root, leases, hload, hreads⟩, hfiles⟩ := h.open hc hn
  have hleases : root.getObjectItem "leases".toList = some leases := by
    unfold loadLeases at hload
    obtain ⟨root', -, hload⟩ := Option.bind_eq_some_iff.mp hload
    obtain ⟨leases', hleases, hload⟩ := Option.bind_eq_some_iff.mp hload
    cases hload
    exact hleases
  unfold leaseRemove DHCPServer.leaseRemove
  rw [hopen]
  dsimp only
  rw [hload]
  dsimp only
  cases hfind : (store n).find? (·.address == addr) with
  | none =>
    have herase : (store n).eraseP (·.address == addr) = store n :=
      List.eraseP_of_forall_not fun r hr => by simpa using List.find?_eq_none.mp hfind r hr
    rw [findLease_none (fun _ _ => ReadsAs.address) hreads hfind, herase]
    exact ⟨_, _, rfl, hfiles.set hn (holdsRecords_parse hc (.kept hload) hleases hreads) id⟩
  | some r =>
    obtain ⟨i, e, hfound, -, herase⟩ :=
      findLease_some (fun _ _ => ReadsAs.address) hreads hfind
    have hleft : (root.modifyObjectItem "leases".toList
        (Json.detachItemFromArray i)).getObjectItem "leases".toList =
          some (leases.detachItemFromArray i) := by
      rw [Json.getObjectItem_modify_self, hleases]
      rfl
    rw [hfound]
    rw [← Json.children_detachItemFromArray] at herase
    refine ⟨_, _, rfl, hfiles.set hn (holdsRecords_parse hc (.removed hload i) hleft herase) fun hnil => ?_⟩
    rw [hnil]
    rfl

/-- The files that the server itself has written are well formed. -/
theorem Represents.wellFormed {records : FileRecords} (hc : Lawful cjson)
    (h : Represents cjson fs records) (n : CString) :
    WellFormedFile cjson fs n (records (leaseFile n)) := by
  refine (h n).imp id ?_
  rintro ⟨tail, htext⟩
  refine ⟨_, htext, _, _, loadLeases_document hc _ tail, ?_⟩
  show List.Forall₂ (ReadsAs n) ((records (leaseFile n)).map leaseToCjson) _
  rw [List.forall₂_map_left_iff, List.forall₂_same]
  exact fun r _ result => jsonToLease_leaseToCjson result n

/-- What is read from an element does not depend on the pool. -/
theorem ReadsAs.unique {p q : CString} {element : Json} {r r' : LeaseRecord}
    (h : ReadsAs p element r) (h' : ReadsAs q element r') : r = r' := by
  have hp := h emptyLease
  have hq := h' emptyLease
  unfold jsonToLease at hp hq
  obtain ⟨address, haddress, hp⟩ := seq_ok.mp hp
  obtain ⟨subnet, hsubnet, hp⟩ := seq_ok.mp hp
  simp only [haddress, hsubnet, bind, Except.bind] at hq
  cases hmac : stringMember element "client_mac_address".toList with
  | none =>
    rw [hmac] at hp
    cases hp
  | some mac =>
    simp only [hmac] at hp hq
    cases hbytes : scanBytes 6 mac with
    | none =>
      rw [hbytes] at hp
      cases hp
    | some bytes =>
      simp only [hbytes] at hp hq
      cases hp
      cases hq
      rfl

/-- A file determines its records, whatever pool it is read for. -/
theorem WellFormedFile.unique {p q : CString} {rs rs' : List LeaseRecord}
    (h : WellFormedFile cjson fs p rs) (h' : WellFormedFile cjson fs q rs')
    (hfile : leaseFile p = leaseFile q) : rs = rs' := by
  unfold WellFormedFile at h'
  rw [← hfile] at h'
  rcases h with ⟨hnone, rfl⟩ | ⟨text, htext, root, leases, hload, hreads⟩
  · rcases h' with ⟨-, rfl⟩ | ⟨text, htext, -⟩
    · rfl
    · rw [hnone] at htext
      cases htext
  · rcases h' with ⟨hnone, -⟩ | ⟨text', htext', root', leases', hload', hreads'⟩
    · rw [hnone] at htext
      cases htext
    · obtain rfl := Option.some.inj (htext.symm.trans htext')
      obtain ⟨rfl, rfl⟩ := Prod.mk.inj (Option.some.inj (hload.symm.trans hload'))
      clear hload hload'
      generalize leases.children = elements at hreads hreads'
      induction hreads generalizing rs' with
      | nil =>
        cases hreads'
        rfl
      | cons hread _ ih =>
        cases hreads' with
        | cons hread' hreads' => rw [hread.unique hread', ih hreads']

end Files

section Load

variable {cjson : JsonCodec} {names : List CString} {fs : FileSystem} {store : LeaseStore}
  {pool : AddressPool} {pools : List AddressPool} (now : UInt32)

/-- The step lemma: a pass over an element does to the files and the pool what the record it reads
as calls for. -/
theorem loadElement_refines (hc : Lawful cjson) (h : WellFormedFiles cjson names fs store)
    (hn : pool.name ∈ names) {element : Json} {r : LeaseRecord}
    (hread : ReadsAs pool.name element r) (hcov : now < r.leaseExpire → pool.Covered)
    (lease : Lease) :
    ∃ lease' fs', loadElement cjson now (lease, fs, pool) element =
        .ok (lease', fs', (loadLease now (store, pool) r).2) ∧
      WellFormedFiles cjson names fs' (loadLease now (store, pool) r).1 := by
  unfold loadElement loadLease
  simp only [hread lease, bind, Except.bind]
  split
  · obtain ⟨status, fs', hremove, hfiles⟩ := h.remove hc hn r.address
    rw [hremove]
    exact ⟨_, fs', rfl, hfiles⟩
  · rename_i hexp
    have hin := (AddressPool.calls_eq (hcov (UInt32.not_le.mp hexp)) r.address).1
    rw [hin]
    exact ⟨_, fs, rfl, h⟩

theorem loadLease_covered (r : LeaseRecord) :
    (loadLease now (store, pool) r).2.Covered ↔ pool.Covered :=
  AddressPool.covered_of_shape (load_shape now [r] store pool)

/-- The run lemma. -/
theorem loadElements_refine (hc : Lawful cjson) (h : WellFormedFiles cjson names fs store)
    (hn : pool.name ∈ names) {elements : List Json} {records : List LeaseRecord}
    (hreads : List.Forall₂ (ReadsAs pool.name) elements records)
    (hcov : (∃ r ∈ records, now < r.leaseExpire) → pool.Covered) (lease : Lease) :
    ∃ lease' fs', elements.foldlM (loadElement cjson now) (lease, fs, pool) =
        .ok (lease', fs', (records.foldl (loadLease now) (store, pool)).2) ∧
      WellFormedFiles cjson names fs' (records.foldl (loadLease now) (store, pool)).1 := by
  induction elements generalizing records lease fs store pool with
  | nil =>
    cases hreads
    exact ⟨lease, fs, rfl, h⟩
  | cons element elements ih =>
    cases hreads with
    | @cons _ r _ records hread hrest =>
      obtain ⟨lease₁, fs₁, hstep, hfiles₁⟩ := loadElement_refines now hc h hn hread
        (fun hr => hcov ⟨r, List.mem_cons_self, hr⟩) lease
      have hname : (loadLease now (store, pool) r).2.name = pool.name := loadLease_name r
      rw [← hname] at hn hrest
      have hcov' : (∃ r ∈ records, now < r.leaseExpire) →
          (loadLease now (store, pool) r).2.Covered := by
        rintro ⟨q, hq, hrun⟩
        exact (loadLease_covered now r).mpr (hcov ⟨q, List.mem_cons_of_mem _ hq, hrun⟩)
      obtain ⟨lease', fs', hrun, hfiles⟩ := ih hfiles₁ hn hrest hcov' lease₁
      refine ⟨lease', fs', ?_, hfiles⟩
      rw [List.foldlM_cons, hstep]
      exact hrun

/-- In a pool that its bitmap does not cover the first record that still runs leads out of bounds. -/
theorem loadElements_fault (hc : Lawful cjson) (h : WellFormedFiles cjson names fs store)
    (hn : pool.name ∈ names) {elements : List Json} {records : List LeaseRecord}
    (hreads : List.Forall₂ (ReadsAs pool.name) elements records)
    (hinside : ∀ r ∈ records, addressBelongsToPool pool r.address = true) (hcov : ¬pool.Covered)
    (hrun : ∃ r ∈ records, now < r.leaseExpire) (lease : Lease) :
    elements.foldlM (loadElement cjson now) (lease, fs, pool) = .error .outOfBounds := by
  induction elements generalizing records lease fs store pool with
  | nil =>
    cases hreads
    obtain ⟨r, hr, -⟩ := hrun
    cases hr
  | cons element elements ih =>
    cases hreads with
    | @cons _ r _ records hread hrest =>
      rw [List.foldlM_cons]
      by_cases hexp : r.leaseExpire ≤ now
      · obtain ⟨lease₁, fs₁, hstep, hfiles₁⟩ := loadElement_refines now hc h hn hread
          (fun hr => absurd hr (UInt32.not_lt.mpr hexp)) lease
        have hpool : (loadLease now (store, pool) r).2 = pool := by rw [loadLease, if_pos hexp]
        rw [hstep, hpool]
        obtain ⟨q, hq, hqrun⟩ := hrun
        have hqr : q ∈ records := by
          refine (List.mem_cons.mp hq).resolve_left ?_
          rintro rfl
          exact absurd hqrun (UInt32.not_lt.mpr hexp)
        exact ih hfiles₁ hn hrest (fun r hr => hinside r (List.mem_cons_of_mem _ hr)) hcov
          ⟨q, hqr, hqrun⟩ lease₁
      · have hfault : addressPoolSetAddressAllocation pool r.address = .error .outOfBounds := by
          rw [addressPoolSetAddressAllocation, AddressPool.allocationCtl_eq,
            if_pos ⟨hinside r List.mem_cons_self, hcov⟩]
        unfold loadElement
        simp only [hread lease, bind, Except.bind, hexp, if_false, hfault]

/-- Loading a pool from a well-formed file. -/
theorem loadPoolLeases_refines (hc : Lawful cjson) (h : WellFormedFiles cjson names fs store)
    (hn : pool.name ∈ names) (hcov : (∃ r ∈ store pool.name, now < r.leaseExpire) → pool.Covered) :
    ∃ fs', loadPoolLeases cjson now fs pool = .ok (0, fs', (DHCPServer.loadPoolLeases now store pool).2) ∧
      WellFormedFiles cjson names fs' (DHCPServer.loadPoolLeases now store pool).1 := by
  obtain ⟨text, fs₁, hopen, ⟨root, leases, hload, hreads⟩, hfiles₁⟩ := h.open hc hn
  obtain ⟨lease', fs', hrun, hfiles⟩ :=
    loadElements_refine now hc hfiles₁ hn hreads hcov emptyLease
  refine ⟨fs', ?_, hfiles⟩
  unfold loadPoolLeases
  rw [hopen]
  dsimp only
  rw [hload]
  dsimp only
  rw [hrun]
  rfl

theorem loadPoolLeases_fault (hc : Lawful cjson) (h : WellFormedFiles cjson names fs store)
    (hn : pool.name ∈ names)
    (hinside : ∀ r ∈ store pool.name, addressBelongsToPool pool r.address = true)
    (hcov : ¬pool.Covered) (hrun : ∃ r ∈ store pool.name, now < r.leaseExpire) :
    loadPoolLeases cjson now fs pool = .error .outOfBounds := by
  obtain ⟨text, fs₁, hopen, ⟨root, leases, hload, hreads⟩, hfiles₁⟩ := h.open hc hn
  have hfault := loadElements_fault now hc hfiles₁ hn hreads hinside hcov hrun emptyLease
  unfold loadPoolLeases
  rw [hopen]
  dsimp only
  rw [hload]
  dsimp only
  rw [hfault]
  rfl

/-- Loading all pools from well-formed files. -/
theorem initLoad_refines (hc : Lawful cjson) (h : WellFormedFiles cjson names fs store)
    (hn : ∀ p ∈ pools, p.name ∈ names)
    (hcov : ∀ p ∈ pools, (∃ r ∈ store p.name, now < r.leaseExpire) → p.Covered) :
    ∃ fs', initLoadPersistenLeases cjson now fs pools =
        .ok (fs', (DHCPServer.initLoadPersistenLeases now store pools).2) ∧
      WellFormedFiles cjson names fs' (DHCPServer.initLoadPersistenLeases now store pools).1 := by
  induction pools generalizing fs store with
  | nil => exact ⟨fs, rfl, h⟩
  | cons p pools ih =>
    obtain ⟨fs₁, hload, hfiles₁⟩ :=
      loadPoolLeases_refines now hc h (hn p List.mem_cons_self) (hcov p List.mem_cons_self)
    have hcov' : ∀ q ∈ pools, (∃ r ∈ (DHCPServer.loadPoolLeases now store p).1 q.name,
        now < r.leaseExpire) → q.Covered := by
      rintro q hq ⟨r, hr, hrun⟩
      exact hcov q (List.mem_cons_of_mem _ hq) ⟨r, load_subset hr, hrun⟩
    obtain ⟨fs', hrun, hfiles⟩ := ih hfiles₁ (fun q hq => hn q (List.mem_cons_of_mem _ hq)) hcov'
    refine ⟨fs', ?_, hfiles⟩
    rw [initLoadPersistenLeases, hload]
    simp only [bind, Except.bind, hrun]
    rfl

/-- A pool with a record that still runs and a bitmap that does not cover it ends the loading. -/
theorem initLoad_fault (hc : Lawful cjson) (h : WellFormedFiles cjson names fs store)
    (hn : ∀ p ∈ pools, p.name ∈ names) (hnames : (pools.map (·.name)).Nodup)
    (hinside : ∀ p ∈ pools, ∀ r ∈ store p.name, addressBelongsToPool p r.address = true)
    (hcov : ∃ p ∈ pools, (∃ r ∈ store p.name, now < r.leaseExpire) ∧ ¬p.Covered) :
    initLoadPersistenLeases cjson now fs pools = .error .outOfBounds := by
  induction pools generalizing fs store with
  | nil =>
    obtain ⟨p, hp, -⟩ := hcov
    cases hp
  | cons p pools ih =>
    rw [initLoadPersistenLeases]
    by_cases hp : (∃ r ∈ store p.name, now < r.leaseExpire) ∧ ¬p.Covered
    · rw [loadPoolLeases_fault now hc h (hn p List.mem_cons_self) (hinside p List.mem_cons_self)
        hp.2 hp.1]
      rfl
    · obtain ⟨fs₁, hload, hfiles₁⟩ := loadPoolLeases_refines now hc h (hn p List.mem_cons_self)
        (by simpa using hp)
      rw [List.map_cons, List.nodup_cons] at hnames
      -- the files of the pools behind are as they were found
      have hsame : ∀ q ∈ pools, (DHCPServer.loadPoolLeases now store p).1 q.name = store q.name :=
        fun q hq => load_other fun heq => hnames.1 (List.mem_map.mpr ⟨q, hq, heq⟩)
      have hrest := ih hfiles₁ (fun q hq => hn q (List.mem_cons_of_mem _ hq)) hnames.2
        (fun q hq r hr => hinside q (List.mem_cons_of_mem _ hq) r (hsame q hq ▸ hr)) (by
          obtain ⟨q, hq, hbad⟩ := hcov
          rcases List.mem_cons.mp hq with rfl | hq
          · exact absurd hbad hp
          · exact ⟨q, hq, (hsame q hq).symm ▸ hbad.1, hbad.2⟩)
      rw [hload]
      simp only [bind, Except.bind, hrest]

end Load

end LeaseFile

end DHCPServer
