import DHCPServer.Lease.Store

namespace DHCPServer

section File

variable {x a : UInt32} {l : List LeaseRecord}

/-- How many records of an address a file holds. -/
def recordsAt (x : UInt32) (l : List LeaseRecord) : Nat := l.countP (·.address == x)

theorem recordsAt_pos : 0 < recordsAt x l ↔ ∃ r ∈ l, r.address = x := by
  simp [recordsAt, List.countP_pos_iff]

theorem recordsAt_eraseP :
    recordsAt x (l.eraseP (·.address == a)) = recordsAt x l - if x = a then 1 else 0 := by
  unfold recordsAt
  induction l with
  | nil => simp
  | cons r l ih =>
    by_cases ha : r.address = a
    · rw [List.eraseP_cons_of_pos (by simpa using ha), List.countP_cons]
      by_cases hx : x = a
      · simp [hx, ha]
      · simp [hx, ha, Ne.symm hx]
    · rw [List.eraseP_cons_of_neg (by simpa using ha), List.countP_cons, ih, List.countP_cons]
      by_cases hx : x = a
      · simp [hx, ha]
      · simp [hx]

end File

section Pool

variable {pool : AddressPool} {x y : UInt32}

theorem setAllocation_shape (x : UInt32) :
    (pool.setAllocation x).2.shape = pool.shape := by
  rw [AddressPool.set_eq]
  split
  · exact pool.mark_shape
  · rfl

theorem setAllocation_mono (h : pool.isAllocated y = true) :
    (pool.setAllocation x).2.isAllocated y = true := by
  rw [AddressPool.set_eq]
  split
  · exact AddressPool.mark_isAllocated_of_isAllocated h
  · exact h

theorem setAllocation_self (hc : pool.Covered) (hx : addressBelongsToPool pool x = true) :
    (pool.setAllocation x).2.isAllocated x = true := by
  rw [AddressPool.set_eq]
  split
  · exact AddressPool.mark_isAllocated_self hc hx
  · rename_i h
    simpa [hx] using h

theorem setAllocation_isAllocated
    (h : (pool.setAllocation x).2.isAllocated y = true) :
    pool.isAllocated y = true ∨ y = x := by
  rw [AddressPool.set_eq] at h
  split at h
  · rename_i hx
    by_cases hy : y = x
    · exact .inr hy
    · rw [Bool.and_eq_true] at hx
      exact .inl ((AddressPool.mark_isAllocated_ne hx.1 hy).symm.trans h)
  · exact .inl h

end Pool

section Load

variable {now : UInt32} {recs : List LeaseRecord} {store : LeaseStore} {pool : AddressPool}
  {x : UInt32}

/-- A record that has not expired at loading time. -/
def LeaseRecord.runsAt (r : LeaseRecord) (now : UInt32) : Bool := !decide (r.leaseExpire ≤ now)

theorem load_shape (now : UInt32) (recs : List LeaseRecord) (store : LeaseStore)
    (pool : AddressPool) : (recs.foldl (loadLease now) (store, pool)).2.shape = pool.shape := by
  induction recs generalizing store pool with
  | nil => rfl
  | cons r recs ih =>
    rw [List.foldl_cons, loadLease]
    split
    · exact ih _ _
    · exact (ih _ _).trans (setAllocation_shape r.address)

theorem load_other {n : CString} (hn : n ≠ pool.name) :
    (recs.foldl (loadLease now) (store, pool)).1 n = store n := by
  induction recs generalizing store pool with
  | nil => rfl
  | cons r recs ih =>
    rw [List.foldl_cons, loadLease]
    split
    · rw [ih hn, leaseRemove_other _ hn]
    · have hname : (pool.setAllocation r.address).2.name = pool.name :=
        congrArg Prod.fst (setAllocation_shape r.address)
      exact ih (by rwa [hname])

theorem load_subset {r : LeaseRecord} {n : CString}
    (h : r ∈ (recs.foldl (loadLease now) (store, pool)).1 n) : r ∈ store n := by
  induction recs generalizing store pool with
  | nil => exact h
  | cons r' recs ih =>
    rw [List.foldl_cons, loadLease] at h
    split at h
    · exact mem_leaseRemove (ih h)
    · exact ih h

/-- Every expired record met takes one record of its address out of the file. -/
theorem load_recordsAt :
    recordsAt x ((recs.foldl (loadLease now) (store, pool)).1 pool.name) =
      recordsAt x (store pool.name) -
        recs.countP (fun r => r.address == x && !r.runsAt now) := by
  induction recs generalizing store pool with
  | nil => rfl
  | cons r recs ih =>
    rw [List.foldl_cons, loadLease, List.countP_cons]
    split
    · rename_i hexp
      rw [ih, leaseRemove_same, recordsAt_eraseP]
      by_cases hx : x = r.address
      · simp [hx, LeaseRecord.runsAt, hexp]
        omega
      · simp [hx, Ne.symm hx]
    · rename_i hexp
      have hname : (pool.setAllocation r.address).2.name = pool.name :=
        congrArg Prod.fst (setAllocation_shape r.address)
      have hcount : (if (r.address == x && !r.runsAt now) = true then 1 else 0) = 0 := by
        simp [LeaseRecord.runsAt, hexp]
      rw [hcount, Nat.add_zero, ← hname]
      exact ih

/-- The addresses that are allocated after loading a file: those allocated before, and those of
the records that still run. -/
theorem load_isAllocated (h : (recs.foldl (loadLease now) (store, pool)).2.isAllocated x = true) :
    pool.isAllocated x = true ∨ ∃ r ∈ recs, r.address = x ∧ r.runsAt now = true := by
  induction recs generalizing store pool with
  | nil => exact .inl h
  | cons r recs ih =>
    rw [List.foldl_cons, loadLease] at h
    split at h
    · exact (ih h).imp id fun ⟨r', hr', hx⟩ => ⟨r', List.mem_cons_of_mem _ hr', hx⟩
    · rename_i hexp
      rcases ih h with h | ⟨r', hr', hx⟩
      · refine (setAllocation_isAllocated h).imp id fun hx => ⟨r, List.mem_cons_self, hx.symm, ?_⟩
        simpa [LeaseRecord.runsAt] using hexp
      · exact .inr ⟨r', List.mem_cons_of_mem _ hr', hx⟩

theorem load_mono (h : pool.isAllocated x = true) :
    (recs.foldl (loadLease now) (store, pool)).2.isAllocated x = true := by
  induction recs generalizing store pool with
  | nil => exact h
  | cons r recs ih =>
    rw [List.foldl_cons, loadLease]
    split
    · exact ih h
    · exact ih (setAllocation_mono h)

theorem load_marks (hc : pool.Covered) {r : LeaseRecord} (hr : r ∈ recs)
    (hrun : r.runsAt now = true) (hb : addressBelongsToPool pool r.address = true) :
    (recs.foldl (loadLease now) (store, pool)).2.isAllocated r.address = true := by
  induction recs generalizing store pool with
  | nil => cases hr
  | cons r' recs ih =>
    rw [List.foldl_cons, loadLease]
    split
    · rename_i hexp
      refine ih hc ?_ hb
      rcases List.mem_cons.mp hr with rfl | hr
      · simp [LeaseRecord.runsAt, hexp] at hrun
      · exact hr
    · rcases List.mem_cons.mp hr with rfl | hr
      · exact load_mono (setAllocation_self hc hb)
      · have hshape : (pool.setAllocation r'.address).2.shape = pool.shape :=
          setAllocation_shape r'.address
        exact ih ((AddressPool.covered_of_shape hshape).mpr hc) hr
          ((AddressPool.belongs_of_shape hshape _).trans hb)

/-- A record left in a freshly loaded file stands for one that still runs. -/
theorem loaded_iff_runs : (∃ r ∈ (loadPoolLeases now store pool).1 pool.name, r.address = x) ↔
    ∃ r ∈ store pool.name, r.address = x ∧ r.runsAt now = true := by
  have hsplit : recordsAt x (store pool.name) =
      (store pool.name).countP (fun r => r.address == x && !r.runsAt now) +
        (store pool.name).countP (fun r => r.address == x && r.runsAt now) := by
    unfold recordsAt
    induction store pool.name with
    | nil => rfl
    | cons r l ih =>
      simp only [List.countP_cons, ih]
      cases r.runsAt now <;> cases hx : r.address == x <;> simp <;> omega
  have hcount : recordsAt x ((loadPoolLeases now store pool).1 pool.name) =
      (store pool.name).countP (fun r => r.address == x && r.runsAt now) := by
    rw [loadPoolLeases, load_recordsAt, hsplit]
    omega
  rw [← recordsAt_pos, hcount, List.countP_pos_iff]
  simp

/-- With one record an address at most, loading takes the expired records out of a file and leaves
the others where they are. `pre` is what the loop has passed. -/
theorem load_file {pre : List LeaseRecord} (hfile : store pool.name = pre ++ recs)
    (hn : ((pre ++ recs).map (·.address)).Nodup) :
    (recs.foldl (loadLease now) (store, pool)).1 pool.name = pre ++ recs.filter (·.runsAt now) := by
  induction recs generalizing pre store pool with
  | nil => simpa using hfile
  | cons r recs ih =>
    rw [List.foldl_cons, loadLease]
    split
    · rename_i hexp
      have herase : (store pool.name).eraseP (·.address == r.address) = pre ++ recs := by
        rw [hfile]
        exact eraseP_of_nodup hn
      have hrest : ((pre ++ recs).map (·.address)).Nodup :=
        hn.sublist (((List.sublist_cons_self r recs).append_left pre).map _)
      rw [ih ((leaseRemove_same _ _ _).trans herase) hrest]
      simp [LeaseRecord.runsAt, hexp]
    · rename_i hexp
      have hname : (pool.setAllocation r.address).2.name = pool.name :=
        congrArg Prod.fst (setAllocation_shape r.address)
      have hnext : store (pool.setAllocation r.address).2.name =
          (pre ++ [r]) ++ recs := by
        rw [hname, hfile, List.append_assoc]
        rfl
      have hload := ih hnext (by simpa using hn)
      rw [hname] at hload
      rw [hload, List.filter_cons_of_pos (by simpa [LeaseRecord.runsAt] using hexp),
        List.append_assoc]
      rfl

/-- With the records in the order in which they end, the expired ones come first, and the record that
is taken out for each of them is this one itself. `pre` is what the loop has passed. -/
theorem load_sorted {pre : List LeaseRecord} (hfile : store pool.name = pre ++ recs)
    (hsorted : recs.Pairwise (·.leaseExpire ≤ ·.leaseExpire))
    (hpre : pre = [] ∨ ∀ r ∈ recs, r.runsAt now = true) :
    (recs.foldl (loadLease now) (store, pool)).1 pool.name = pre ++ recs.filter (·.runsAt now) := by
  induction recs generalizing pre store pool with
  | nil => simpa using hfile
  | cons r recs ih =>
    rw [List.pairwise_cons] at hsorted
    rw [List.foldl_cons, loadLease]
    split
    · rename_i hexp
      have hdue : r.runsAt now = false := by simpa [LeaseRecord.runsAt] using hexp
      have hnil : pre = [] := by
        apply hpre.resolve_right
        intro hall
        rw [hall r List.mem_cons_self] at hdue
        cases hdue
      subst hnil
      have herase : (leaseRemove .done store r.address pool.name).2 pool.name = [] ++ recs := by
        rw [leaseRemove_same, hfile]
        simp
      rw [ih herase hsorted.2 (.inl rfl)]
      simp [hdue]
    · rename_i hexp
      have hrest : ∀ q ∈ recs, q.runsAt now = true := by
        intro q hq
        have hlt := UInt32.lt_of_lt_of_le (UInt32.not_le.mp hexp) (hsorted.1 q hq)
        simpa [LeaseRecord.runsAt] using hlt
      have hrun : r.runsAt now = true := by simpa [LeaseRecord.runsAt] using hexp
      have hname : (pool.setAllocation r.address).2.name = pool.name :=
        congrArg Prod.fst (setAllocation_shape r.address)
      have hnext : store (pool.setAllocation r.address).2.name =
          (pre ++ [r]) ++ recs := by
        rw [hname, hfile]
        simp
      have hload := ih hnext hsorted.2 (.inr hrest)
      rw [hname] at hload
      rw [hload]
      simp [hrun]

/-- Every record that still runs takes one address out of the pool. -/
theorem load_available (hn : (recs.map (·.address)).Nodup)
    (hfree : ∀ r ∈ recs, addressBelongsToPool pool r.address = true ∧
      pool.isAllocated r.address = false) :
    (recs.foldl (loadLease now) (store, pool)).2.availableAddresses =
      pool.availableAddresses - UInt32.ofNat (recs.filter (·.runsAt now)).length := by
  induction recs generalizing store pool with
  | nil => simp
  | cons r recs ih =>
    rw [List.map_cons, List.nodup_cons] at hn
    rw [List.foldl_cons, loadLease]
    split
    · rename_i hexp
      rw [ih hn.2 fun q hq => hfree q (List.mem_cons_of_mem _ hq)]
      simp [LeaseRecord.runsAt, hexp]
    · rename_i hexp
      obtain ⟨hb, hr⟩ := hfree r List.mem_cons_self
      have hset : (pool.setAllocation r.address).2 = pool.mark r.address := by
        rw [AddressPool.set_eq, hb, hr]
        rfl
      -- the records behind have other addresses, so their bits are as before
      have hrest : ∀ q ∈ recs, addressBelongsToPool (pool.mark r.address) q.address = true ∧
          (pool.mark r.address).isAllocated q.address = false := by
        intro q hq
        obtain ⟨hqb, hqa⟩ := hfree q (List.mem_cons_of_mem _ hq)
        have hne : q.address ≠ r.address := fun h => hn.1 (h ▸ List.mem_map_of_mem hq)
        exact ⟨hqb, (AddressPool.mark_isAllocated_ne hb hne).trans hqa⟩
      rw [hset, ih hn.2 hrest,
        List.filter_cons_of_pos (by simpa [LeaseRecord.runsAt] using hexp), List.length_cons]
      show pool.availableAddresses - 1 - _ = _
      rw [← UInt32.toNat_inj]
      simp only [UInt32.toNat_sub, UInt32.toNat_ofNat', UInt32.toNat_one]
      omega

theorem loadLease_congr {store' : LeaseStore} (now : UInt32) (r : LeaseRecord)
    (h : store pool.name = store' pool.name) :
    (loadLease now (store, pool) r).2 = (loadLease now (store', pool) r).2 ∧
      (loadLease now (store, pool) r).1 pool.name = (loadLease now (store', pool) r).1 pool.name := by
  unfold loadLease
  split
  · refine ⟨rfl, ?_⟩
    show (leaseRemove .done store r.address pool.name).2 pool.name =
      (leaseRemove .done store' r.address pool.name).2 pool.name
    rw [leaseRemove_same, leaseRemove_same, h]
  · exact ⟨rfl, h⟩

theorem loadLease_name (r : LeaseRecord) : (loadLease now (store, pool) r).2.name = pool.name := by
  unfold loadLease
  split
  · rfl
  · exact congrArg Prod.fst (setAllocation_shape r.address)

/-- Loading a pool looks at the file of the pool only. -/
theorem load_congr {store' : LeaseStore} (now : UInt32) (recs : List LeaseRecord)
    (h : store pool.name = store' pool.name) :
    (recs.foldl (loadLease now) (store, pool)).2 = (recs.foldl (loadLease now) (store', pool)).2 ∧
      (recs.foldl (loadLease now) (store, pool)).1 pool.name =
        (recs.foldl (loadLease now) (store', pool)).1 pool.name := by
  induction recs generalizing store store' pool with
  | nil => exact ⟨rfl, h⟩
  | cons r recs ih =>
    obtain ⟨hpool, hfile⟩ := loadLease_congr now r h
    have hname : (loadLease now (store, pool) r).2.name = pool.name := loadLease_name r
    rw [← hname] at hfile
    have hnext := ih hfile
    rw [hname] at hnext
    have heq : loadLease now (store', pool) r =
        ((loadLease now (store', pool) r).1, (loadLease now (store, pool) r).2) :=
      Prod.ext rfl hpool.symm
    rw [List.foldl_cons, List.foldl_cons, heq]
    exact hnext

end Load

section LoadAll

variable {now : UInt32} {store : LeaseStore} {pools : List AddressPool}

theorem initLoad_subset {r : LeaseRecord} {n : CString}
    (h : r ∈ (initLoadPersistenLeases now store pools).1 n) : r ∈ store n := by
  induction pools generalizing store with
  | nil => exact h
  | cons p pools ih => exact load_subset (ih h)

theorem initLoad_other {n : CString} (h : ∀ p ∈ pools, p.name ≠ n) :
    (initLoadPersistenLeases now store pools).1 n = store n := by
  induction pools generalizing store with
  | nil => rfl
  | cons p pools ih =>
    have hp : n ≠ p.name := (h p List.mem_cons_self).symm
    exact (ih fun q hq => h q (List.mem_cons_of_mem _ hq)).trans (load_other hp)

/-- With distinct names every pool is loaded from its own file, as the file was found. -/
theorem initLoad_eq (hn : (pools.map (·.name)).Nodup) :
    (initLoadPersistenLeases now store pools).2 =
        pools.map (fun p => (loadPoolLeases now store p).2) ∧
      ∀ p ∈ pools, (initLoadPersistenLeases now store pools).1 p.name =
        (loadPoolLeases now store p).1 p.name := by
  induction pools generalizing store with
  | nil => exact ⟨rfl, by simp⟩
  | cons p pools ih =>
    rw [List.map_cons, List.nodup_cons] at hn
    have hne : ∀ q ∈ pools, q.name ≠ p.name := fun q hq he =>
      hn.1 (List.mem_map.mpr ⟨q, hq, he⟩)
    -- the other files are untouched by the load of `p`
    have hsame : ∀ q ∈ pools, (loadPoolLeases now store p).1 q.name = store q.name :=
      fun q hq => load_other (hne q hq)
    have hq : ∀ q ∈ pools, (loadPoolLeases now (loadPoolLeases now store p).1 q).2 =
          (loadPoolLeases now store q).2 ∧
        (loadPoolLeases now (loadPoolLeases now store p).1 q).1 q.name =
          (loadPoolLeases now store q).1 q.name := by
      intro q hq
      have hrec : (loadPoolLeases now store p).1 q.name = store q.name := hsame q hq
      have hcongr := load_congr now (store q.name) hrec
      unfold loadPoolLeases at hrec hcongr ⊢
      rw [hrec]
      exact hcongr
    obtain ⟨hpools, hfiles⟩ := @ih (loadPoolLeases now store p).1 hn.2
    refine ⟨?_, ?_⟩
    · show (loadPoolLeases now store p).2 ::
        (initLoadPersistenLeases now (loadPoolLeases now store p).1 pools).2 = _
      rw [hpools, List.map_cons, List.map_congr_left fun q hq' => (hq q hq').1]
    · intro q hq'
      rcases List.mem_cons.mp hq' with rfl | hq'
      · exact initLoad_other hne
      · exact (hfiles q hq').trans (hq q hq').2

end LoadAll

end DHCPServer
