import DHCPServer.Server.Startup

namespace DHCPServer

/-- Every address with a lease that runs at the time `now` is allocated in its pool, so that it is
not available. -/
def LeasedAllocated (now : UInt32) (s : Server) : Prop :=
  ∀ p ∈ s.allocator.addressPools, ∀ r ∈ s.leases p.name, now < r.leaseExpire →
    allocatorIsAddressAvailable s.allocator r.address = false ∧
      (s.allocator.hasPool r.address = true → p.isAllocated r.address = true)

/-- Every record stands in the file of the pool that contains its address, if any pool does. -/
def Filed (a : AddressAllocator) (store : LeaseStore) : Prop :=
  ∀ n ∈ a.poolNames, ∀ r ∈ store n, ∀ q ∈ a.addressPools,
    addressBelongsToPool q r.address = true → q.name = n

/-- No address of a record, expired or not, is available. -/
def Marked (a : AddressAllocator) (store : LeaseStore) : Prop :=
  ∀ n ∈ a.poolNames, ∀ r ∈ store n, allocatorIsAddressAvailable a r.address = false

/-- Passes that leave the addresses of leases allocated: no timeout gives back an address that has
a record, and a record is released or found expired only where it is the address's only one and
does not stay in a file that cannot be cut. -/
def keepsLeased : PassCondition where
  tick := fun env s =>
    (∀ x ∈ returnedAddresses env.now s.transCache, ∀ n ∈ s.allocator.poolNames,
      ∀ r ∈ s.leases n, r.address ≠ x) ∧
    (checkDue env.now s = true → ∀ n ∈ s.allocator.poolNames, ∀ r ∈ s.leases n,
      r.leaseExpire ≤ env.now → recordsAt r.address (s.leases n) ≤ 1 ∧
        env.sweeps n r.address ≠ .notTruncated)
  message := fun env s m => m.type = MsgType.release →
    ∀ p, allocatorGetPoolByAddress s.allocator m.ciaddr = some p →
      recordsAt m.ciaddr (s.leases p.name) ≤ 1 ∧ env.rewrite ≠ .notTruncated

/-- The server is started with disjoint pools whose bitmaps have a bit for every address, and the
files hold no record of another pool's address. -/
def StartedFiled (s : Server) : Prop :=
  ∃ cfg files now, s = startup cfg files now ∧ s.allocator.Disjoint ∧ s.allocator.Covered ∧
    Filed s.allocator files

section Filing

variable {a a' : AddressAllocator} {store store' : LeaseStore}

theorem Filed.of_shape (h : Filed a store) (hs : a'.shape = a.shape) : Filed a' store := by
  intro n hn r hr q hq hb
  rw [AddressAllocator.poolNames_of_shape hs] at hn
  obtain ⟨p, hp, hshape⟩ := AddressAllocator.exists_same_shape hs hq
  have hname : p.name = q.name := congrArg Prod.fst hshape
  rw [← hname]
  exact h n hn r hr p hp ((AddressPool.belongs_of_shape hshape _).trans hb)

theorem Filed.subset (h : Filed a store) (hsub : ∀ n, ∀ r ∈ store' n, ∃ r₀ ∈ store n,
    r₀.address = r.address) : Filed a store' := by
  intro n hn r hr q hq hb
  obtain ⟨r₀, hr₀, haddr⟩ := hsub n r hr
  exact h n hn r₀ hr₀ q hq (haddr ▸ hb)

theorem startup_marked_all {cfg : Config} {files : LeaseStore} {now : UInt32}
    (hw : (startup cfg files now).allocator.WellFormed)
    (hf : Filed (startup cfg files now).allocator files) :
    Marked (startup cfg files now).allocator (startup cfg files now).leases := by
  intro n hn r hr
  obtain ⟨q, hq, rfl⟩ := List.mem_map.mp hn
  rw [AddressAllocator.isAvailable_eq]
  cases hpool : (startup cfg files now).allocator.hasPool r.address with
  | false => rfl
  | true =>
    obtain ⟨q', hq', hb⟩ := (AddressAllocator.hasPool_eq_true _ _).mp hpool
    obtain rfl : q' = q := hw.name_inj hq' hq (hf _ hn r (startup_subset hr) q' hq' hb)
    rw [AddressAllocator.isAllocated_of_belongs hw.disjoint hq' hb,
      startup_marked hq' (hw.covered _ hq') hr hb]
    rfl

end Filing

section Steps

variable {env : Env} {s s' : Server} {m : Message}

/-- Giving an address back and removing a record of it keeps the others marked, when no further
record of it is left. -/
theorem Marked.remove {a : AddressAllocator} {l : LeaseStore} (h : Marked a l) {x : UInt32}
    {rewrite : Rewrite} {name : CString}
    (hlast : ∀ n ∈ a.poolNames, ∀ r ∈ (leaseRemove rewrite l x name).2 n, r.address ≠ x) :
    Marked (allocatorReleaseAddress a x).2 (leaseRemove rewrite l x name).2 := by
  have hshape := AddressAllocator.release_shape a x
  intro n hn r hr
  rw [AddressAllocator.poolNames_of_shape hshape] at hn
  refine AddressAllocator.notAvailable_of_mono hshape ?_ (h n hn r (mem_leaseRemove hr))
  intro halloc
  rw [AddressAllocator.release_isAllocated, halloc]
  simpa using hlast n hn r hr

/-- With the files in order, an address whose only record is removed has none left. -/
theorem no_record_left {a : AddressAllocator} {l store : LeaseStore} {rewrite : Rewrite}
    (hf : Filed a store) (hsub : ∀ n, ∀ r ∈ l n, r ∈ store n) {p : AddressPool}
    (hp : p ∈ a.addressPools) {x : UInt32} (hb : addressBelongsToPool p x = true)
    (hone : recordsAt x (l p.name) ≤ 1) (hopen : rewrite ≠ .notOpened)
    (hcut : rewrite ≠ .notTruncated) :
    ∀ n ∈ a.poolNames, ∀ r ∈ (leaseRemove rewrite l x p.name).2 n, r.address ≠ x := by
  rintro n hn r hr rfl
  obtain rfl : p.name = n := hf n hn r (hsub n r (mem_leaseRemove hr)) p hp hb
  cases rewrite with
  | done =>
    rw [leaseRemove_same] at hr
    have hpos := recordsAt_pos.mpr ⟨r, hr, rfl⟩
    rw [recordsAt_eraseP, if_pos rfl] at hpos
    omega
  | notOpened => exact hopen rfl
  | notTruncated => exact hcut rfl
  | notWritten =>
    rw [leaseRemove_notWritten] at hr
    cases hr

theorem updateTimers_marked (hf : Filed s.allocator s.leases) (hm : Marked s.allocator s.leases)
    (hc : keepsLeased.tick env s) :
    Marked (updateTimers env s).allocator (updateTimers env s).leases := by
  obtain ⟨hreturned, hexpired⟩ := hc
  -- the check works on parts of the files as they were found
  refine (updateTimers_rule (P := fun a l => a.shape = s.allocator.shape ∧
    (∀ n, (l n).Sublist (s.leases n)) ∧ Marked a l) ?_ ?_).2.2
  · refine ⟨releaseAll_shape _ _, fun n => List.Sublist.refl _, ?_⟩
    intro n hn r hr
    have hshape := releaseAll_shape s.allocator (returnedAddresses env.now s.transCache)
    rw [AddressAllocator.poolNames_of_shape hshape] at hn
    refine AddressAllocator.notAvailable_of_mono hshape ?_ (hm n hn r hr)
    intro halloc
    rw [releaseAll_isAllocated, halloc, Bool.true_and, Bool.not_eq_true', ← Bool.not_eq_true,
      List.contains_iff_mem]
    intro hmem
    exact hreturned r.address hmem n hn r hr rfl
  · rintro hdue a l p x r ⟨hshape, hsub, hmarked⟩ hp hb hfirst hexp hopen
    have hr : r ∈ l p.name := List.mem_of_find?_eq_some hfirst
    have haddr : r.address = x := by simpa using List.find?_some hfirst
    have hone := hexpired hdue p.name (List.mem_map_of_mem hp) r ((hsub p.name).subset hr) hexp
    rw [haddr] at hone
    refine ⟨(AddressAllocator.release_shape a x).trans hshape,
      fun n => (leaseRemove_sublist _ l x p.name n).trans (hsub n), ?_⟩
    apply hmarked.remove
    rw [AddressAllocator.poolNames_of_shape hshape]
    exact no_record_left hf (fun n r hr => (hsub n).subset hr) hp hb
      (((hsub p.name).countP_le).trans hone.1) hopen hone.2

/-- Only a RELEASE makes an address available, and only the one it names. -/
theorem Effect.notAvailable (h : Effect env s m s') {x : UInt32}
    (hx : m.type = MsgType.release → x ≠ m.ciaddr)
    (hav : allocatorIsAddressAvailable s.allocator x = false) :
    allocatorIsAddressAvailable s'.allocator x = false := by
  refine AddressAllocator.notAvailable_of_mono h.shape ?_ hav
  intro halloc
  cases h with
  | ignored => exact halloc
  | offered _ _ hg hr =>
    rw [hr.allocator]
    exact hg.isAllocated_mono halloc
  | refused _ hr | committed _ _ _ hr | renewed _ _ _ _ hr | notRenewed _ _ _ hr | informed _ hr =>
    rw [hr.allocator]
    exact halloc
  | released ht _ _ =>
    rw [Server.setAllocator_allocator, AddressAllocator.release_isAllocated, halloc]
    simpa using hx ht
  | declined _ _ _ => exact AddressAllocator.requestThis_mono _ _ halloc

theorem Effect.filed (h : Effect env s m s') (hd : s.allocator.Disjoint)
    (hf : Filed s.allocator s.leases) : Filed s'.allocator s'.leases := by
  refine Filed.of_shape ?_ h.shape
  intro n hn r hr q hq hb
  rcases h.record_cases hr with ⟨r₀, hr₀, ha₀, -⟩ | ⟨o50, lease, -, -, hc, rfl, rfl⟩
  · exact hf n hn r₀ hr₀ q hq (ha₀ ▸ hb)
  · obtain ⟨haddr, -, p, hp, hname⟩ := hc.record
    rw [haddr] at hb
    have hq' := AddressAllocator.getPool_of_belongs hd hq hb
    obtain rfl : p = q := Option.some.inj (hp.symm.trans hq')
    exact hname.symm

theorem Effect.marked (h : Effect env s m s') (hf : Filed s.allocator s.leases)
    (hm : Marked s.allocator s.leases) (hc : keepsLeased.message env s m) :
    Marked s'.allocator s'.leases := by
  by_cases ht : m.type = MsgType.release
  · cases h with
    | ignored => exact hm
    | released _ hfirst hopen =>
      obtain ⟨hone, hcut⟩ := hc ht _ hfirst.pool
      exact hm.remove (no_record_left hf (fun _ _ hr => hr)
        (List.mem_of_find?_eq_some hfirst.pool) hfirst.belongs hone hopen hcut)
    | offered ht' _ _ _ | refused ht' _ | committed ht' _ _ _ | renewed ht' _ _ _ _
    | notRenewed ht' _ _ _ | informed ht' _ | declined ht' _ _ =>
      exact absurd (ht.symm.trans ht') (by decide)
  · have hshape := h.shape
    intro n hn r hr
    rw [AddressAllocator.poolNames_of_shape hshape] at hn
    refine h.notAvailable (fun h => absurd h ht) ?_
    rcases h.record_cases hr with ⟨r₀, hr₀, ha₀, -⟩ | ⟨o50, lease, -, -, hcom, -, rfl⟩
    · rw [← ha₀]
      exact hm n hn r₀ hr₀
    · rw [hcom.record.1]
      exact hcom.notAvailable

end Steps

/-- In every run whose passes leave the addresses of leases allocated, an address with a lease is
not available while the lease runs. -/
theorem leased_address_not_available {s : Server}
    (h : Reachable serve keepsLeased.Holds StartedFiled s) (now : UInt32) :
    LeasedAllocated now s := by
  obtain ⟨hw, hf, hm⟩ : s.allocator.WellFormed ∧ Filed s.allocator s.leases ∧
      Marked s.allocator s.leases := by
    refine (run_rule (P := fun s => s.allocator.WellFormed ∧ Filed s.allocator s.leases ∧
      Marked s.allocator s.leases) ?_ ?_ ?_ ?_ ?_ h).2
    · intro s h
      obtain ⟨cfg, files, now, rfl, hd, hc, hf⟩ := h
      have hw : (startup cfg files now).allocator.WellFormed := ⟨hd, hc, startup_names _ _ _⟩
      exact ⟨startup_sound cfg files now, hw, hf.subset fun n r hr => ⟨r, startup_subset hr, rfl⟩,
        startup_marked_all hw hf⟩
    · rintro env s - ⟨hw, hf, hm⟩ hc
      have hshape := updateTimers_shape env s
      exact ⟨AddressAllocator.wellFormed_of_shape hshape hw,
        (hf.subset fun n r hr => ⟨r, updateTimers_subset hr, rfl⟩).of_shape hshape,
        updateTimers_marked hf hm hc⟩
    · intro s s' hP hr _
      rwa [hr.allocator, hr.leases]
    · intro env s m s' _ hP hacc _
      rwa [hacc.allocator, hacc.leases]
    · rintro env s₀ s m s' rv - - ⟨hw, hf, hm⟩ hc - heff
      exact ⟨AddressAllocator.wellFormed_of_shape heff.shape hw, heff.filed hw.disjoint hf,
        heff.marked hf hm hc⟩
  intro p hp r hr _
  have hav := hm p.name (List.mem_map_of_mem hp) r hr
  refine ⟨hav, ?_⟩
  intro hpool
  obtain ⟨q, hq, hb⟩ := (AddressAllocator.hasPool_eq_true _ _).mp hpool
  obtain rfl : q = p := hw.name_inj hq hp (hf p.name (List.mem_map_of_mem hp) r hr q hq hb)
  rw [AddressAllocator.isAvailable_eq, hpool, Bool.true_and, Bool.not_eq_false',
    AddressAllocator.isAllocated_of_belongs hw.disjoint hq hb] at hav
  exact hav

theorem startedFiled_small (files : LeaseStore) :
    StartedFiled (startup smallNetwork files 1000) := by
  have hshape := smallNetwork_shape files
  have hw := AddressAllocator.wellFormed_of_shape hshape smallAllocator_wellFormed
  refine ⟨_, _, _, rfl, hw.disjoint, hw.covered, ?_⟩
  -- there is only one file
  have hname : ∀ n ∈ (startup smallNetwork files 1000).allocator.poolNames, n = ['a'] := by
    rw [AddressAllocator.poolNames_of_shape hshape]
    exact smallAllocator_names
  intro n hn r _ q hq _
  rw [hname n hn, hname q.name (List.mem_map_of_mem hq)]

/-- A test for passes that meet the condition. -/
def leasedKept (s : Server) (e : Event) : Bool :=
  s.allocator.poolNames.all (fun n => (s.leases n).all fun r =>
    !(returnedAddresses e.env.now s.transCache).contains r.address &&
      decide (recordsAt r.address (s.leases n) ≤ 1) &&
      e.env.sweeps n r.address != .notTruncated) &&
  (handled s e).all fun r => r.1.type != MsgType.release

theorem leasedKept_holds (s : Server) (e : Event) (h : leasedKept s e = true) :
    keepsLeased.Holds s e := by
  simp only [leasedKept, Bool.and_eq_true, List.all_eq_true, Bool.not_eq_true',
    decide_eq_true_eq] at h
  obtain ⟨hrecs, hmsg⟩ := h
  refine ⟨⟨?_, fun _ n hn r hr _ => ?_⟩, ?_⟩
  · rintro x hx n hn r hr rfl
    have hno := (hrecs n hn r hr).1.1
    rw [← Bool.not_eq_true, List.contains_iff_mem] at hno
    exact hno hx
  · exact ⟨(hrecs n hn r hr).1.2, by simpa using (hrecs n hn r hr).2⟩
  · intro m s₂ hm ht
    simp [hm, ht] at hmsg

/-- Beside the lease of 10.0.0.1, an offer of 10.0.0.2 to another client is left to time out. -/
def unansweredOffer : List Event := [discoverBy 1001 9 2, passes 1061]

theorem unansweredOffer_leased_allocated :
    ∃ s, Reachable serve keepsLeased.Holds StartedFiled s ∧ (s.leases ['a']).length = 1 ∧
      LeasedAllocated 1061 s := by
  have hrun : (unansweredOffer.foldlM (Reachable.checked serve leasedKept) leasedServer).any
      (fun s => (s.leases ['a']).length == 1) = true := by decide +kernel
  obtain ⟨s, hs, hlen⟩ := Reachable.of_run leasedKept_holds unansweredOffer
    (startedFiled_small leasedFiles) hrun
  exact ⟨s, hs, by simpa using hlen, leased_address_not_available hs 1061⟩

/-- A client is offered 10.0.0.1 and gets its lease; a minute later its transaction times out. -/
def answeredOffer : List Event := [discoverBy 1000 7 1, requestBy 1001 7 1 1, passes 1061]

theorem leased_address_becomes_available :
    ¬∀ s now, Reachable serve PassCondition.always.Holds StartedFiled s → LeasedAllocated now s := by
  intro h
  have hrun : (answeredOffer.foldlM (Reachable.checked serve fun _ _ => true) smallServer).any
      (fun s => s.allocator.addressPools.any fun p => (s.leases p.name).any fun r =>
        decide (1061 < r.leaseExpire) && allocatorIsAddressAvailable s.allocator r.address) =
        true := by
    decide +kernel
  obtain ⟨s, hs, htest⟩ := Reachable.of_run (fun s e _ => PassCondition.always_holds s e)
    answeredOffer (startedFiled_small fun _ => []) hrun
  simp only [List.any_eq_true, Bool.and_eq_true, decide_eq_true_eq] at htest
  obtain ⟨p, hp, r, hr, hexp, hav⟩ := htest
  rw [(h s 1061 hs p hp r hr hexp).1] at hav
  cases hav

end DHCPServer
