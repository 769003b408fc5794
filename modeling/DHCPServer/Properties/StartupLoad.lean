import DHCPServer.Lease.FileLoad
import DHCPServer.Server.Startup

namespace DHCPServer

/-- A pool that has just been made, with the options of the configuration. -/
def AddressPool.Fresh (pool : AddressPool) : Prop :=
  ∃ name start «end» mask options p, addressPoolNew name start «end» mask = some p ∧
    pool = p.addOptions options

/-- The records of a file lie in the pool, and no two of them have one address. -/
structure RecordsOf (pool : AddressPool) (records : List LeaseRecord) : Prop where
  inside : ∀ r ∈ records, addressBelongsToPool pool r.address = true
  distinct : (records.map (·.address)).Nodup

/-- What loading is meant to make of a pool and of its file. -/
structure LoadsPool (cjson : JsonCodec) (now : UInt32) (records : List LeaseRecord)
    (fs' : FileSystem) (pool pool' : AddressPool) : Prop where
  shape : pool'.shape = pool.shape
  allocated : ∀ x, pool'.isAllocated x = true ↔ ∃ r ∈ records, r.address = x ∧ now < r.leaseExpire
  available : pool'.availableAddresses.toNat + (records.filter (now < ·.leaseExpire)).length =
    pool.endAddress.toNat - pool.startAddress.toNat + 1
  file : LeaseFile.WellFormedFile cjson fs' pool.name (records.filter (now < ·.leaseExpire))

section Pool

variable {pool : AddressPool} {records : List LeaseRecord} {now : UInt32} {store : LeaseStore}
  {cjson : JsonCodec} {fs' : FileSystem}

theorem runsAt_eq (r : LeaseRecord) : r.runsAt now = decide (now < r.leaseExpire) := by
  unfold LeaseRecord.runsAt
  rw [Bool.eq_iff_iff]
  simp

theorem AddressPool.Fresh.free (h : pool.Fresh) (x : UInt32) : pool.isAllocated x = false := by
  obtain ⟨name, start, «end», mask, options, p, hnew, rfl⟩ := h
  exact AddressPool.addressPoolNew_free hnew options x

/-- The configured pools have just been made. -/
theorem configuredPools_fresh (cfg : Config) : ∀ p ∈ configuredPools cfg, p.Fresh := by
  refine configLoadPools_rule
    (P := fun a => ∀ p ∈ a.addressPools, p.Fresh) (by simp [addressAllocatorNew]) ?_
  intro a c _ pool hfresh hnew p hp
  rcases AddressAllocator.addPool_pools a (pool.addOptions c.options) with heq | ⟨-, heq⟩
  · exact hfresh p (heq ▸ hp)
  · rw [heq, List.mem_append, List.mem_singleton] at hp
    rcases hp with hp | rfl
    · exact hfresh p hp
    · exact ⟨_, _, _, _, c.options, pool, hnew, rfl⟩

theorem AddressPool.Fresh.available (h : pool.Fresh) : pool.availableAddresses.toNat =
    pool.endAddress.toNat - pool.startAddress.toNat + 1 := by
  obtain ⟨name, start, «end», mask, options, p, hnew, rfl⟩ := h
  obtain ⟨hshape, -, hav⟩ := AddressPool.addressPoolNew_eq_some hnew
  have ho := UInt32.lt_iff_toNat_lt.mp p.ordered
  have hpos := UInt32.lt_iff_toNat_lt.mp p.positive
  have hend := p.endAddress.toNat_lt
  rw [UInt32.toNat_zero] at hpos
  simp only [AddressPool.shape, Prod.mk.injEq] at hshape
  rw [← hshape.2.1, ← hshape.2.2.1] at hav
  show p.availableAddresses.toNat = p.endAddress.toNat - p.startAddress.toNat + 1
  rw [hav, UInt32.toNat_add, UInt32.toNat_sub_of_le _ _ (UInt32.le_iff_toNat_le.mpr ho.le),
    UInt32.toNat_one]
  omega

/-- A bitmap that does not cover its pool has no byte at all, and all marks are lost. -/
theorem AddressPool.not_allocated_of_not_covered (h : ¬pool.Covered) (x : UInt32) :
    pool.isAllocated x = false := by
  have hzero : Bitmap.bitAt pool.leasesBm (pool.number x) = false := by
    rw [AddressPool.leasesBm_of_not_covered h]
    simp [Bitmap.bitAt]
  rw [AddressPool.isAllocated, hzero, Bool.and_false]

/-- Not more records can lie in a pool than it has addresses. -/
theorem RecordsOf.length_le (h : RecordsOf pool records) :
    records.length ≤ pool.endAddress.toNat - pool.startAddress.toNat + 1 := by
  have hsub : records.map (·.address) ⊆ pool.addresses := by
    intro x hx
    obtain ⟨r, hr, rfl⟩ := List.mem_map.mp hx
    exact AddressPool.mem_addresses.mpr (h.inside r hr)
  have hle := (List.subperm_of_subset h.distinct hsub).length_le
  rwa [List.length_map, AddressPool.length_addresses] at hle

/-- A pool with a whole bitmap is loaded as it is meant to be. -/
theorem loadsPool_of_covered (hfresh : pool.Fresh) (hc : (∃ r ∈ store pool.name, now < r.leaseExpire) →
      pool.Covered) (hrec : RecordsOf pool (store pool.name))
    (hfile : LeaseFile.WellFormedFile cjson fs' pool.name
      ((store pool.name).filter (now < ·.leaseExpire))) :
    LoadsPool cjson now (store pool.name) fs' pool (loadPoolLeases now store pool).2 where
  shape := load_shape now _ store pool
  allocated x := by
    constructor
    · intro hx
      rcases load_isAllocated hx with hx | ⟨r, hr, hx, hrun⟩
      · rw [hfresh.free x] at hx
        cases hx
      · exact ⟨r, hr, hx, by simpa [runsAt_eq] using hrun⟩
    · rintro ⟨r, hr, rfl, hrun⟩
      have hrun' : r.runsAt now = true := by simpa [runsAt_eq] using hrun
      exact load_marks (hc ⟨r, hr, hrun⟩) hr hrun' (hrec.inside r hr)
  available := by
    have hload : (loadPoolLeases now store pool).2.availableAddresses = _ :=
      load_available hrec.distinct fun r hr => ⟨hrec.inside r hr, hfresh.free _⟩
    have hle : ((store pool.name).filter (now < ·.leaseExpire)).length ≤
        pool.availableAddresses.toNat := by
      rw [hfresh.available]
      exact (List.length_filter_le _ _).trans hrec.length_le
    have hav := pool.availableAddresses.toNat_lt
    simp only [runsAt_eq] at hload
    rw [hload, ← hfresh.available, UInt32.toNat_sub_of_le, UInt32.toNat_ofNat']
    · omega
    · rw [UInt32.le_iff_toNat_le, UInt32.toNat_ofNat']
      omega
  file := hfile

/-- The marks of records that still run are there only when the bitmap is whole. -/
theorem LoadsPool.covered {pool' : AddressPool} (h : LoadsPool cjson now records fs' pool pool')
    (hrun : ∃ r ∈ records, now < r.leaseExpire) : pool.Covered := by
  obtain ⟨r, hr, hrun⟩ := hrun
  by_contra hc
  have hmark := (h.allocated r.address).mpr ⟨r, hr, rfl, hrun⟩
  have hlost := AddressPool.not_allocated_of_not_covered
    (mt (AddressPool.covered_of_shape h.shape).mp hc) r.address
  rw [hmark] at hlost
  cases hlost

end Pool

/-- Well-formed files of disjoint pools: what two of the pools share lies in the range of none. -/
theorem wellFormedFiles_of_disjoint {cjson : JsonCodec} {pools : List AddressPool}
    {fs : FileSystem} {store : LeaseStore}
    (hdisjoint : (⟨[], pools⟩ : AddressAllocator).Disjoint)
    (hfiles : ∀ p ∈ pools, LeaseFile.WellFormedFile cjson fs p.name (store p.name))
    (hrecords : ∀ p ∈ pools, RecordsOf p (store p.name)) :
    LeaseFile.WellFormedFiles cjson (pools.map (·.name)) fs store := by
  constructor
  · intro n hn
    obtain ⟨p, hp, rfl⟩ := List.mem_map.mp hn
    exact hfiles p hp
  · intro m hm n hn hmn hfile
    obtain ⟨p, hp, rfl⟩ := List.mem_map.mp hm
    obtain ⟨q, hq, rfl⟩ := List.mem_map.mp hn
    have hsame := (hfiles p hp).unique (hfiles q hq) hfile
    rw [List.eq_nil_iff_forall_not_mem]
    intro r hr
    have hpr := AddressAllocator.getPool_of_belongs hdisjoint hp ((hrecords p hp).inside r hr)
    have hqr := AddressAllocator.getPool_of_belongs hdisjoint hq
      ((hrecords q hq).inside r (hsame ▸ hr))
    exact hmn (congrArg _ (Option.some.inj (hpr.symm.trans hqr)))

/-- Loading the lease files at startup makes of every pool and every file what is meant exactly when
no pool with a running lease is so large that the size of its bitmap wraps; otherwise it writes
behind a bitmap. -/
theorem startup_load_exact_iff {cjson : JsonCodec} (hc : LeaseFile.Lawful cjson) {pools : List AddressPool}
    {fs : FileSystem} {store : LeaseStore} (hfresh : ∀ p ∈ pools, p.Fresh)
    (hnames : (pools.map (·.name)).Nodup)
    (hdisjoint : (⟨[], pools⟩ : AddressAllocator).Disjoint)
    (hfiles : ∀ p ∈ pools, LeaseFile.WellFormedFile cjson fs p.name (store p.name))
    (hrecords : ∀ p ∈ pools, RecordsOf p (store p.name)) (now : UInt32) :
    ((∃ fs' pools', LeaseFile.initLoadPersistenLeases cjson now fs pools = .ok (fs', pools') ∧
        List.Forall₂ (fun p p' => LoadsPool cjson now (store p.name) fs' p p') pools pools') ↔
      ∀ p ∈ pools, (∃ r ∈ store p.name, now < r.leaseExpire) →
        p.endAddress.toNat - p.startAddress.toNat + 8 < 2 ^ 32) ∧
    ((∃ p ∈ pools, (∃ r ∈ store p.name, now < r.leaseExpire) ∧
        2 ^ 32 ≤ p.endAddress.toNat - p.startAddress.toNat + 8) →
      LeaseFile.initLoadPersistenLeases cjson now fs pools = .error .outOfBounds) := by
  have hwell := wellFormedFiles_of_disjoint hdisjoint hfiles hrecords
  have hmem : ∀ p ∈ pools, p.name ∈ pools.map (·.name) := fun p hp => List.mem_map_of_mem hp
  simp only [← AddressPool.covered_iff, ← Nat.not_lt]
  refine ⟨⟨?_, fun hcov => ?_⟩, fun hfault => ?_⟩
  · rintro ⟨fs', pools', hrun, hloads⟩ p hp hrunning
    obtain ⟨p', -, hload⟩ := forall₂_partner hloads hp
    exact hload.covered hrunning
  · obtain ⟨fs', hrun, hwell'⟩ := LeaseFile.initLoad_refines now hc hwell hmem hcov
    obtain ⟨hpools, hstore⟩ := @initLoad_eq now store _ hnames
    refine ⟨fs', _, hrun, ?_⟩
    rw [hpools, List.forall₂_map_right_iff, List.forall₂_same]
    intro p hp
    refine loadsPool_of_covered (hfresh p hp) (hcov p hp) (hrecords p hp) ?_
    have hfile := hwell'.file p.name (hmem p hp)
    have hleft : (loadPoolLeases now store p).1 p.name =
        [] ++ (store p.name).filter (·.runsAt now) :=
      load_file rfl (hrecords p hp).distinct
    rw [hstore p hp, hleft, List.nil_append] at hfile
    simpa only [runsAt_eq] using hfile
  · exact LeaseFile.initLoad_fault now hc hwell hmem hnames
      (fun p hp => (hrecords p hp).inside) hfault

/-- The lease files that the server wrote for the records of the pool `a`. -/
def filesOf (records : List LeaseRecord) : FileSystem :=
  FileSystem.set (fun _ => none) (LeaseFile.leasePath ['a'])
    (JsonText.codec.print (LeaseFile.document records))

/-- The records of one pool in the store that `filesOf` holds. -/
def storeOf (records : List LeaseRecord) : LeaseStore :=
  LeaseStore.set (fun _ => []) ['a'] records

theorem filesOf_wellFormed (records : List LeaseRecord) :
    LeaseFile.WellFormedFile JsonText.codec (filesOf records) ['a'] (storeOf records ['a']) := by
  have hempty : LeaseFile.Represents JsonText.codec (fun _ => none) fun _ => [] :=
    fun _ => .inl ⟨rfl, rfl⟩
  have hset := hempty.set ['a'] records []
  rw [List.append_nil] at hset
  have hfile := hset.wellFormed (JsonText.codec_lawful _) ['a']
  rw [LeaseFile.FileRecords.set, if_pos rfl] at hfile
  rwa [storeOf, LeaseStore.set_same]

/-- A single pool with these files is fit for being loaded. -/
theorem filesOf_pool {start «end» mask : UInt32} {p : AddressPool} {records : List LeaseRecord}
    (hnew : addressPoolNew ['a'] start «end» mask = some p) (hrec : RecordsOf p records) :
    storeOf records p.name = records ∧ (∀ q ∈ [p], q.Fresh) ∧
      (∀ q ∈ [p], LeaseFile.WellFormedFile JsonText.codec (filesOf records) q.name
        (storeOf records q.name)) ∧
      ∀ q ∈ [p], RecordsOf q (storeOf records q.name) := by
  have hname : p.name = ['a'] := congrArg Prod.fst (AddressPool.addressPoolNew_eq_some hnew).1
  have hfile : storeOf records p.name = records := by
    rw [hname]
    exact LeaseStore.set_same _ _ _
  refine ⟨hfile, ?_, ?_, ?_⟩
  · intro q hq
    obtain rfl := List.mem_singleton.mp hq
    exact ⟨_, _, _, _, [], q, hnew, rfl⟩
  · intro q hq
    obtain rfl := List.mem_singleton.mp hq
    rw [hname]
    exact filesOf_wellFormed records
  · intro q hq
    obtain rfl := List.mem_singleton.mp hq
    rw [hfile]
    exact hrec

/-- Leases of 10.0.0.2, which has expired at 4000, and of 10.0.0.1 and 10.0.0.3. -/
def threeRecords : List LeaseRecord :=
  [⟨0x0a000001, 0xffffff00, 1, 1000, 4600, 0, Buffer.zero 6⟩,
    ⟨0x0a000002, 0xffffff00, 2, 300, 3900, 0, Buffer.zero 6⟩,
    ⟨0x0a000003, 0xffffff00, 3, 1000, 4600, 0, Buffer.zero 6⟩]

theorem threeRecords_loaded : ∃ p fs' pools',
    addressPoolNew ['a'] 0x0a000001 0x0a000003 0xffffff00 = some p ∧
    LeaseFile.initLoadPersistenLeases JsonText.codec 4000 (filesOf threeRecords) [p] =
      .ok (fs', pools') ∧
    List.Forall₂ (fun p p' => LoadsPool JsonText.codec 4000 (storeOf threeRecords p.name) fs' p p')
      [p] pools' := by
  have hany : (addressPoolNew ['a'] 0x0a000001 0x0a000003 0xffffff00).any (fun p =>
      threeRecords.all (fun r => addressBelongsToPool p r.address) &&
      decide (p.endAddress.toNat - p.startAddress.toNat + 8 < 2 ^ 32)) = true := by decide +kernel
  obtain ⟨p, hnew, hp⟩ := (Option.any_eq_true _ _).mp hany
  simp only [Bool.and_eq_true, List.all_eq_true, decide_eq_true_eq] at hp
  obtain ⟨hinside, hsize⟩ := hp
  obtain ⟨-, hfresh, hfiles, hrecords⟩ := filesOf_pool hnew ⟨hinside, by decide⟩
  obtain ⟨fs', pools', hrun, hloads⟩ := (startup_load_exact_iff (JsonText.codec_lawful _) hfresh
    (List.nodup_singleton _) (List.pairwise_singleton _ _) hfiles hrecords 4000).1.mpr (by
      intro q hq _
      obtain rfl := List.mem_singleton.mp hq
      exact hsize)
  exact ⟨p, fs', pools', hnew, hrun, hloads⟩

/-- The pool of all addresses gets a bitmap of no bytes, and the mark of its first lease is written
behind it. -/
theorem startup_load_out_of_bounds :
    ¬∀ (cjson : JsonCodec) (pools : List AddressPool) (fs : FileSystem) (store : LeaseStore)
      (now : UInt32), LeaseFile.Lawful cjson → (∀ p ∈ pools, p.Fresh) → (pools.map (·.name)).Nodup →
      (⟨[], pools⟩ : AddressAllocator).Disjoint →
      (∀ p ∈ pools, LeaseFile.WellFormedFile cjson fs p.name (store p.name)) →
      (∀ p ∈ pools, RecordsOf p (store p.name)) →
      ∃ fs' pools', LeaseFile.initLoadPersistenLeases cjson now fs pools = .ok (fs', pools') ∧
        List.Forall₂ (fun p p' => LoadsPool cjson now (store p.name) fs' p p') pools pools' := by
  intro h
  have hany : (addressPoolNew ['a'] 1 0xfffffffe 0).any (fun p =>
      threeRecords.all (fun r => addressBelongsToPool p r.address) && decide ¬p.Covered) = true := by
    decide +kernel
  obtain ⟨p, hnew, hp⟩ := (Option.any_eq_true _ _).mp hany
  simp only [Bool.and_eq_true, List.all_eq_true, decide_eq_true_eq] at hp
  obtain ⟨hinside, hsize⟩ := hp
  obtain ⟨hfile, hfresh, hfiles, hrecords⟩ := filesOf_pool hnew ⟨hinside, by decide⟩
  have hone : (⟨[], [p]⟩ : AddressAllocator).Disjoint := List.pairwise_singleton _ _
  obtain ⟨fs', pools', hok, -⟩ := h JsonText.codec [p] (filesOf threeRecords) _ 4000
    (JsonText.codec_lawful _) hfresh (List.nodup_singleton _) hone hfiles hrecords
  have hfault := LeaseFile.initLoad_fault 4000 (JsonText.codec_lawful _)
    (wellFormedFiles_of_disjoint hone hfiles hrecords)
    (fun q hq => List.mem_map_of_mem hq) (List.nodup_singleton _)
    (fun q hq => (hrecords q hq).inside)
    ⟨p, List.mem_cons_self, hfile.symm ▸ ⟨_, List.mem_cons_self, by decide⟩, hsize⟩
  rw [hfault] at hok
  cases hok

end DHCPServer
