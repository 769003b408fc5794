import DHCPServer.Server.Startup

namespace DHCPServer

/-- The address is allocated, and the file of its pool has a record of it that has expired. -/
def dueAt (t : UInt32) (s : Server) (x : UInt32) : Bool :=
  s.allocator.addressPools.any fun p => p.isAllocated x &&
    (s.leases p.name).any fun r => r.address == x && decide (r.leaseExpire ≤ t)

/-- The record of the file `n` is an expired one of an allocated address of a pool with this
file. -/
def dueRecord (t : UInt32) (s : Server) (n : CString) (r : LeaseRecord) : Bool :=
  s.allocator.addressPools.any fun p =>
    p.name == n && p.isAllocated r.address && decide (r.leaseExpire ≤ t)

/-- The file of a pool has at most one record of each of its addresses. -/
def SingleRecords (s : Server) : Prop :=
  ∀ p ∈ s.allocator.addressPools, ∀ x, addressBelongsToPool p x = true →
    recordsAt x (s.leases p.name) ≤ 1

/-- What the expiry check is meant to do: exactly the addresses that are due become available and
lose their records, and they are counted. -/
structure SweepsExactly (t : UInt32) (s : Server) (w : Sweep) : Prop where
  shape : w.allocator.shape = s.allocator.shape
  freed : ∀ x, dueAt t s x = true → allocatorIsAddressAvailable w.allocator x = true
  allocated : ∀ x, w.allocator.isAllocated x = (s.allocator.isAllocated x && !dueAt t s x)
  leases : ∀ n, w.leases n = (s.leases n).filter (!dueRecord t s n ·)
  counters : List.Forall₂ (fun p p' => p'.shape = p.shape ∧ p'.availableAddresses =
    p.availableAddresses + UInt32.ofNat (p.addresses.countP (dueAt t s)))
    s.allocator.addressPools w.allocator.addressPools
  released : w.released =
    (s.allocator.addressPools.map fun p => p.addresses.countP (dueAt t s)).sum

/-- The file in which the check looks for the record of an address. -/
def fileOf (s : Server) (x : UInt32) : Option CString :=
  (allocatorGetPoolByAddress s.allocator x).map (·.name)

/-- How `lease_remove` gets on with the record of an address. -/
def removal (env : Env) (s : Server) (x : UInt32) : Rewrite :=
  ((fileOf s x).map (env.sweeps · x)).getD .done

/-- The removal of the record of a due address leaves this file empty. -/
def empties (env : Env) (s : Server) (f : Option CString) (x : UInt32) : Bool :=
  dueAt env.now s x && removal env s x == .notWritten && fileOf s x == f

/-- What of the visited addresses comes before `x`. -/
def before (V : List UInt32) (x : UInt32) : List UInt32 := V.takeWhile (· != x)

/-- A visit gives the address back: it is due, its file can be opened, and no visit before has left
the file empty. -/
def givenBack (env : Env) (s : Server) (V : List UInt32) (x : UInt32) : Bool :=
  dueAt env.now s x && V.contains x && removal env s x != .notOpened &&
    !(before V x).any (empties env s (fileOf s x))

/-- What the visits leave of the file `n`. -/
def leftIn (env : Env) (s : Server) (V : List UInt32) (n : CString) : List LeaseRecord :=
  if V.any (empties env s (some n)) then []
  else (s.leases n).filter fun r => !(dueRecord env.now s n r && V.contains r.address &&
    env.sweeps n r.address == .done)

/-- What the check has done when it has visited the addresses `V`. -/
structure Swept (env : Env) (s : Server) (V : List UInt32) (w : Sweep) : Prop where
  shape : w.allocator.shape = s.allocator.shape
  allocated : ∀ x, w.allocator.isAllocated x = (s.allocator.isAllocated x && !givenBack env s V x)
  leases : ∀ n, w.leases n = leftIn env s V n
  counters : List.Forall₂ (fun p p' => p'.shape = p.shape ∧ p'.availableAddresses =
    p.availableAddresses + UInt32.ofNat
      (V.countP fun x => givenBack env s V x && addressBelongsToPool p x))
    s.allocator.addressPools w.allocator.addressPools
  released : w.released = V.countP (givenBack env s V)

section Due

variable {t : UInt32} {s : Server} {p q : AddressPool} {x : UInt32} {n : CString} {r : LeaseRecord}

/-- With disjoint pools only the address's own pool counts. -/
theorem pool_unique (hd : s.allocator.Disjoint) (hp : p ∈ s.allocator.addressPools)
    (hq : q ∈ s.allocator.addressPools) (hpx : addressBelongsToPool p x = true)
    (hqx : addressBelongsToPool q x = true) : q = p :=
  Option.some.inj ((AddressAllocator.getPool_of_belongs hd hq hqx).symm.trans
    (AddressAllocator.getPool_of_belongs hd hp hpx))

theorem dueAt_of_belongs (hd : s.allocator.Disjoint) (hp : p ∈ s.allocator.addressPools)
    (hb : addressBelongsToPool p x = true) : dueAt t s x = (p.isAllocated x &&
      (s.leases p.name).any fun r => r.address == x && decide (r.leaseExpire ≤ t)) := by
  rw [dueAt, Bool.eq_iff_iff, List.any_eq_true]
  constructor
  · intro h
    obtain ⟨q, hq, hdue⟩ := h
    rw [Bool.and_eq_true] at hdue
    obtain rfl := pool_unique hd hp hq hb (AddressPool.belongs_of_isAllocated hdue.1)
    rw [Bool.and_eq_true]
    exact hdue
  · exact fun h => ⟨p, hp, h⟩

theorem fileOf_of_belongs (hd : s.allocator.Disjoint) (hp : p ∈ s.allocator.addressPools)
    (hb : addressBelongsToPool p x = true) : fileOf s x = some p.name := by
  rw [fileOf, AddressAllocator.getPool_of_belongs hd hp hb]
  rfl

theorem removal_of_belongs {env : Env} (hd : s.allocator.Disjoint)
    (hp : p ∈ s.allocator.addressPools) (hb : addressBelongsToPool p x = true) :
    removal env s x = env.sweeps p.name x := by
  rw [removal, fileOf_of_belongs hd hp hb]
  rfl

theorem dueRecord_of_belongs (hd : s.allocator.Disjoint) (hp : p ∈ s.allocator.addressPools)
    (hb : addressBelongsToPool p r.address = true) : dueRecord t s n r =
      (p.name == n && p.isAllocated r.address && decide (r.leaseExpire ≤ t)) := by
  rw [dueRecord, Bool.eq_iff_iff, List.any_eq_true]
  constructor
  · intro h
    obtain ⟨q, hq, hdue⟩ := h
    have hqr : q.isAllocated r.address = true := by
      simp only [Bool.and_eq_true] at hdue
      exact hdue.1.2
    obtain rfl := pool_unique hd hp hq hb (AddressPool.belongs_of_isAllocated hqr)
    exact hdue
  · exact fun h => ⟨p, hp, h⟩

/-- An address that is due belongs to a pool. -/
theorem dueAt_pool (h : dueAt t s x = true) :
    ∃ p ∈ s.allocator.addressPools, addressBelongsToPool p x = true := by
  obtain ⟨p, hp, hdue⟩ := List.any_eq_true.mp h
  rw [Bool.and_eq_true] at hdue
  exact ⟨p, hp, AddressPool.belongs_of_isAllocated hdue.1⟩

/-- The address of a record that is due is due. -/
theorem dueAt_of_dueRecord (hr : r ∈ s.leases n) (h : dueRecord t s n r = true) :
    dueAt t s r.address = true := by
  obtain ⟨p, hp, hdue⟩ := List.any_eq_true.mp h
  simp only [Bool.and_eq_true, beq_iff_eq] at hdue
  obtain ⟨⟨hname, halloc⟩, hexp⟩ := hdue
  subst hname
  refine List.any_eq_true.mpr ⟨p, hp, ?_⟩
  rw [halloc, Bool.true_and, List.any_eq_true]
  exact ⟨r, hr, by simpa using hexp⟩

theorem fileOf_of_dueRecord (hd : s.allocator.Disjoint) (h : dueRecord t s n r = true) :
    fileOf s r.address = some n := by
  obtain ⟨p, hp, hdue⟩ := List.any_eq_true.mp h
  simp only [Bool.and_eq_true, beq_iff_eq] at hdue
  rw [fileOf_of_belongs hd hp (AddressPool.belongs_of_isAllocated hdue.1.2), hdue.1.1]

theorem due_of_empties {env : Env} {f : Option CString} (h : empties env s f x = true) :
    dueAt env.now s x = true := by
  simp only [empties, Bool.and_eq_true] at h
  exact h.1.1

end Due

section Visits

variable {env : Env} {s : Server} {V : List UInt32} {x y : UInt32} {f : Option CString}

theorem before_append_of_mem (W : List UInt32) (hy : y ∈ V) : before (V ++ W) y = before V y := by
  induction V with
  | nil => cases hy
  | cons v V ih =>
    by_cases hv : v = y
    · simp [before, hv]
    · have hmem : y ∈ V := (List.mem_cons.mp hy).resolve_left (Ne.symm hv)
      simpa [before, hv] using ih hmem

theorem before_of_notMem (hx : x ∉ V) (W : List UInt32) : before (V ++ x :: W) x = V := by
  have hne : ∀ v ∈ V, (v != x) = true := fun v hv => by
    rw [bne_iff_ne]
    exact fun heq => hx (heq ▸ hv)
  rw [before, List.takeWhile_append_of_pos hne]
  simp

/-- A further visit does not change what the earlier ones have given back. -/
theorem givenBack_append_of_ne (hy : y ≠ x) : givenBack env s (V ++ [x]) y = givenBack env s V y := by
  unfold givenBack
  by_cases hmem : y ∈ V
  · rw [before_append_of_mem [x] hmem]
    simp [hmem]
  · simp [hmem, hy]

/-- What a visit itself gives back. -/
theorem givenBack_append_self (hx : x ∉ V) : givenBack env s (V ++ [x]) x =
    (dueAt env.now s x && removal env s x != .notOpened && !V.any (empties env s (fileOf s x))) := by
  rw [givenBack, before_of_notMem hx []]
  simp

theorem givenBack_of_notMem (hx : x ∉ V) : givenBack env s V x = false := by
  simp [givenBack, hx]

theorem countP_givenBack (hx : x ∉ V) (g : UInt32 → Bool) :
    (V ++ [x]).countP (fun y => givenBack env s (V ++ [x]) y && g y) =
      V.countP (fun y => givenBack env s V y && g y) +
        if givenBack env s (V ++ [x]) x && g x then 1 else 0 := by
  have hsame : V.countP (fun y => givenBack env s (V ++ [x]) y && g y) =
      V.countP (fun y => givenBack env s V y && g y) := by
    apply List.countP_congr
    intro y hy
    have hyx : y ≠ x := fun heq => hx (heq ▸ hy)
    rw [givenBack_append_of_ne hyx]
  rw [List.countP_append, hsame, List.countP_singleton]

end Visits

section Step

variable {env : Env} {s : Server} {V : List UInt32} {w : Sweep} {p : AddressPool} {x : UInt32}

/-- The records of an address that has not been visited are there unless the file is empty. -/
theorem find?_leftIn (hx : x ∉ V) (n : CString) : (leftIn env s V n).find? (·.address == x) =
    if V.any (empties env s (some n)) then none else (s.leases n).find? (·.address == x) := by
  unfold leftIn
  split
  · rfl
  · rw [List.find?_filter]
    apply List.find?_congr
    intro r _
    by_cases hr : r.address = x
    · simp [hr, hx]
    · simp [hr]

/-- What a pass decides on an address that has not been visited is whether it gives it back. -/
theorem Swept.checkLeaseAt_eq (h : Swept env s V w) (hd : s.allocator.Disjoint)
    (h1 : SingleRecords s) (hp : p ∈ s.allocator.addressPools)
    (hb : addressBelongsToPool p x = true) (hx : x ∉ V) :
    checkLeaseAt env p.name w x = if givenBack env s (V ++ [x]) x then
      ⟨(allocatorReleaseAddress w.allocator x).2,
        (leaseRemove (env.sweeps p.name x) w.leases x p.name).2, w.released + 1⟩
      else w := by
  have hpool : w.allocator.hasPool x = true := by
    rw [AddressAllocator.hasPool_of_shape h.shape]
    exact (AddressAllocator.hasPool_eq_true _ _).mpr ⟨p, hp, hb⟩
  have halloc : w.allocator.isAllocated x = p.isAllocated x := by
    rw [h.allocated, AddressAllocator.isAllocated_of_belongs hd hp hb, givenBack_of_notMem hx]
    simp
  have hrecords := any_find?_of_countP_le_one (h1 p hp x hb) fun r => decide (r.leaseExpire ≤ env.now)
  rw [DHCPServer.checkLeaseAt_eq, AddressAllocator.isAvailable_eq, hpool, halloc, h.leases,
    find?_leftIn hx, givenBack_append_self hx, dueAt_of_belongs hd hp hb,
    removal_of_belongs hd hp hb, fileOf_of_belongs hd hp hb, Bool.true_and, Bool.not_not]
  cases V.any (empties env s (some p.name)) with
  | true => simp
  | false =>
    rw [if_neg Bool.false_ne_true, hrecords]
    simp

/-- An address that is not given back is passed over, if its visit leaves the files as they are. -/
theorem Swept.skip (h : Swept env s V w) (hx : x ∉ V) (hback : givenBack env s (V ++ [x]) x = false)
    (hleft : ∀ n, leftIn env s (V ++ [x]) n = leftIn env s V n) : Swept env s (V ++ [x]) w := by
  refine ⟨h.shape, fun y => ?_, fun n => (h.leases n).trans (hleft n).symm, ?_, ?_⟩
  · rw [h.allocated]
    by_cases hy : y = x
    · rw [hy, hback, givenBack_of_notMem hx]
    · rw [givenBack_append_of_ne hy]
  · simpa [countP_givenBack hx, hback] using h.counters
  · have hcount := @countP_givenBack env s V x hx fun _ => true
    simp only [Bool.and_true, hback, Bool.false_eq_true, if_false, Nat.add_zero] at hcount
    rw [hcount, h.released]

/-- The records of an address that is due are the expired record of its pool's file. -/
theorem dueRecord_iff_of_due {t : UInt32} (hd : s.allocator.Disjoint) (h1 : SingleRecords s)
    (hp : p ∈ s.allocator.addressPools) (hb : addressBelongsToPool p x = true)
    (hdue : dueAt t s x = true) {n : CString} {r : LeaseRecord} (hr : r ∈ s.leases n)
    (hrx : r.address = x) : dueRecord t s n r = (p.name == n) := by
  rw [dueAt_of_belongs hd hp hb, Bool.and_eq_true, List.any_eq_true] at hdue
  obtain ⟨halloc, r', hr', hexp⟩ := hdue
  rw [Bool.and_eq_true, beq_iff_eq] at hexp
  subst hrx
  rw [dueRecord_of_belongs hd hp hb, halloc, Bool.and_true]
  by_cases hn : p.name = n
  · subst hn
    have heq : r = r' := eq_of_countP_le_one (h1 p hp r.address hb) hr hr' (by simp)
      (by simp [hexp.1])
    rw [heq, hexp.2, Bool.and_true]
  · simp [hn]

/-- A visit changes a file only where it takes a record out of it or leaves it empty. -/
theorem leftIn_append (n : CString) : leftIn env s (V ++ [x]) n =
    if empties env s (some n) x then []
    else (leftIn env s V n).filter fun r =>
      !(dueRecord env.now s n r && r.address == x && env.sweeps n r.address == .done) := by
  unfold leftIn
  rw [List.any_append, List.any_cons, List.any_nil, Bool.or_false]
  cases V.any (empties env s (some n)) with
  | true => cases empties env s (some n) x <;> rfl
  | false =>
    rw [Bool.false_or, if_neg Bool.false_ne_true, List.filter_filter]
    congr 1
    apply List.filter_congr
    intro r _
    by_cases hrx : r.address = x
    · cases dueRecord env.now s n r <;> cases env.sweeps n r.address == .done <;> simp [hrx]
    · simp [hrx]

theorem mem_of_mem_leftIn {n : CString} {r : LeaseRecord} (h : r ∈ leftIn env s V n) :
    r ∈ s.leases n := by
  unfold leftIn at h
  split at h
  · cases h
  · exact List.mem_of_mem_filter h

/-- The visit of an address that is not due leaves the files as they are. -/
theorem leftIn_of_not_due (hx : dueAt env.now s x = false) (n : CString) :
    leftIn env s (V ++ [x]) n = leftIn env s V n := by
  have hempties : empties env s (some n) x = false := by simp [empties, hx]
  rw [leftIn_append, hempties, if_neg Bool.false_ne_true, List.filter_eq_self]
  intro r hr
  cases hdue : dueRecord env.now s n r with
  | false => rfl
  | true =>
    have hne : r.address ≠ x := by
      intro heq
      rw [← heq, dueAt_of_dueRecord (mem_of_mem_leftIn hr) hdue] at hx
      cases hx
    simp [hne]

/-- The visit of an address that is due leaves the files of other pools as they are. -/
theorem leftIn_other (hd : s.allocator.Disjoint) (h1 : SingleRecords s)
    (hp : p ∈ s.allocator.addressPools) (hb : addressBelongsToPool p x = true)
    (hdue : dueAt env.now s x = true) {n : CString} (hn : n ≠ p.name) :
    leftIn env s (V ++ [x]) n = leftIn env s V n := by
  have hempties : empties env s (some n) x = false := by
    simp [empties, fileOf_of_belongs hd hp hb, Ne.symm hn]
  rw [leftIn_append, hempties, if_neg Bool.false_ne_true, List.filter_eq_self]
  intro r hr
  by_cases hrx : r.address = x
  · have hne : (p.name == n) = false := beq_false_of_ne (Ne.symm hn)
    simp [dueRecord_iff_of_due hd h1 hp hb hdue (mem_of_mem_leftIn hr) hrx, hne]
  · simp [hrx]

/-- A removal that neither writes the file anew nor leaves it empty does not change it. -/
theorem leftIn_untouched (hd : s.allocator.Disjoint) (hp : p ∈ s.allocator.addressPools)
    (hb : addressBelongsToPool p x = true) (hdone : env.sweeps p.name x ≠ .done)
    (hcut : env.sweeps p.name x ≠ .notWritten) :
    leftIn env s (V ++ [x]) p.name = leftIn env s V p.name := by
  have hempties : empties env s (some p.name) x = false := by
    simp [empties, removal_of_belongs hd hp hb, hcut]
  rw [leftIn_append, hempties, if_neg Bool.false_ne_true, List.filter_eq_self]
  intro r _
  by_cases hrx : r.address = x
  · simp [hrx, hdone]
  · simp [hrx]

/-- Neither does the visit of an address whose file is empty or cannot be opened. -/
theorem leftIn_of_not_givenBack (hd : s.allocator.Disjoint) (h1 : SingleRecords s)
    (hp : p ∈ s.allocator.addressPools) (hb : addressBelongsToPool p x = true) (hx : x ∉ V)
    (hback : givenBack env s (V ++ [x]) x = false) (n : CString) :
    leftIn env s (V ++ [x]) n = leftIn env s V n := by
  cases hdue : dueAt env.now s x with
  | false => exact leftIn_of_not_due hdue n
  | true =>
    by_cases hn : n = p.name
    · subst hn
      rw [givenBack_append_self hx, hdue, Bool.true_and, removal_of_belongs hd hp hb,
        fileOf_of_belongs hd hp hb] at hback
      cases hany : V.any (empties env s (some p.name)) with
      | true =>
        have hnil : leftIn env s V p.name = [] := by rw [leftIn, if_pos hany]
        rw [leftIn_append, hnil]
        split <;> rfl
      | false =>
        have hopen : env.sweeps p.name x = .notOpened := by simpa [hany] using hback
        exact leftIn_untouched hd hp hb (by simp [hopen]) (by simp [hopen])
    · exact leftIn_other hd h1 hp hb hdue hn

/-- The removal of the record of an address that is due, in a file that can be opened. -/
theorem leaseRemove_leftIn {l : LeaseStore} (hd : s.allocator.Disjoint) (h1 : SingleRecords s)
    (hp : p ∈ s.allocator.addressPools) (hb : addressBelongsToPool p x = true)
    (hdue : dueAt env.now s x = true) (hopen : env.sweeps p.name x ≠ .notOpened)
    (hl : ∀ n, l n = leftIn env s V n) (n : CString) :
    (leaseRemove (env.sweeps p.name x) l x p.name).2 n = leftIn env s (V ++ [x]) n := by
  by_cases hn : n = p.name
  · subst hn
    cases hrew : env.sweeps p.name x with
    | done =>
      have hle : (leftIn env s V p.name).countP (·.address == x) ≤ 1 := by
        unfold leftIn
        split
        · exact Nat.zero_le 1
        · exact (List.filter_sublist.countP_le).trans (h1 p hp x hb)
      have hempties : empties env s (some p.name) x = false := by
        simp [empties, removal_of_belongs hd hp hb, hrew]
      rw [leaseRemove_same, hl, eraseP_of_countP_le_one hle, leftIn_append, hempties,
        if_neg Bool.false_ne_true]
      apply List.filter_congr
      intro r hr
      by_cases hrx : r.address = x
      · simp [dueRecord_iff_of_due hd h1 hp hb hdue (mem_of_mem_leftIn hr) hrx, hrx, hrew]
      · rw [beq_false_of_ne hrx, Bool.and_false, Bool.false_and]
    | notOpened => exact absurd hrew hopen
    | notTruncated =>
      rw [leaseRemove_untouched (by simp) (by simp), hl,
        leftIn_untouched hd hp hb (by simp [hrew]) (by simp [hrew])]
    | notWritten =>
      have hempties : empties env s (some p.name) x = true := by
        simp [empties, removal_of_belongs hd hp hb, fileOf_of_belongs hd hp hb, hrew, hdue]
      rw [leaseRemove_notWritten, leftIn_append, hempties, if_pos rfl]
  · rw [leaseRemove_other _ hn, hl, leftIn_other hd h1 hp hb hdue hn]

/-- An address that is given back is released, and its record is taken out as far as the file
can be written. -/
theorem Swept.release (h : Swept env s V w) (hd : s.allocator.Disjoint) (h1 : SingleRecords s)
    (hp : p ∈ s.allocator.addressPools) (hb : addressBelongsToPool p x = true) (hx : x ∉ V)
    (hback : givenBack env s (V ++ [x]) x = true) : Swept env s (V ++ [x])
      ⟨(allocatorReleaseAddress w.allocator x).2,
        (leaseRemove (env.sweeps p.name x) w.leases x p.name).2, w.released + 1⟩ := by
  have hwd : w.allocator.Disjoint := AddressAllocator.disjoint_of_shape h.shape hd
  have hback' := hback
  rw [givenBack_append_self hx, Bool.and_eq_true, Bool.and_eq_true, bne_iff_ne,
    removal_of_belongs hd hp hb] at hback'
  obtain ⟨⟨hdue, hopen⟩, -⟩ := hback'
  have halloc : w.allocator.isAllocated x = true := by
    have hdue' := hdue
    rw [dueAt_of_belongs hd hp hb, Bool.and_eq_true] at hdue'
    rw [h.allocated, AddressAllocator.isAllocated_of_belongs hd hp hb, hdue'.1,
      givenBack_of_notMem hx]
    rfl
  refine ⟨?_, fun y => ?_, leaseRemove_leftIn hd h1 hp hb hdue hopen h.leases, ?_, ?_⟩
  · exact (AddressAllocator.release_shape _ _).trans h.shape
  · show (allocatorReleaseAddress w.allocator x).2.isAllocated y = _
    rw [AddressAllocator.release_isAllocated, h.allocated]
    by_cases hy : y = x
    · simp [hy, hback]
    · simp [hy, givenBack_append_of_ne hy]
  · show List.Forall₂ _ _ (allocatorReleaseAddress w.allocator x).2.addressPools
    rw [AddressAllocator.release_pools hwd halloc, List.forall₂_map_right_iff]
    apply h.counters.imp
    intro q q' hq
    obtain ⟨hshape, hav⟩ := hq
    rw [AddressPool.belongs_of_shape hshape, countP_givenBack hx, hback, Bool.true_and]
    split
    · refine ⟨hshape, ?_⟩
      show q'.availableAddresses + 1 = _
      simp [hav, UInt32.ofNat_add, UInt32.add_assoc]
    · refine ⟨hshape, ?_⟩
      simp [hav]
  · have hcount := @countP_givenBack env s V x hx fun _ => true
    simp only [Bool.and_true, hback, if_true] at hcount
    show w.released + 1 = _
    rw [hcount, h.released]

/-- The step lemma. -/
theorem Swept.step (h : Swept env s V w) (hd : s.allocator.Disjoint) (h1 : SingleRecords s)
    (hp : p ∈ s.allocator.addressPools) (hb : addressBelongsToPool p x = true) (hx : x ∉ V) :
    Swept env s (V ++ [x]) (checkLeaseAt env p.name w x) := by
  rw [h.checkLeaseAt_eq hd h1 hp hb hx]
  split
  · rename_i hback
    exact h.release hd h1 hp hb hx hback
  · rename_i hback
    rw [Bool.not_eq_true] at hback
    exact h.skip hx hback (leftIn_of_not_givenBack hd h1 hp hb hx hback)

end Step

section Run

variable {env : Env} {s : Server} {V : List UInt32} {w : Sweep} {p : AddressPool}

/-- The run lemma for the loop over a pool. -/
theorem Swept.addresses {xs : List UInt32} (h : Swept env s V w) (hd : s.allocator.Disjoint)
    (h1 : SingleRecords s) (hp : p ∈ s.allocator.addressPools)
    (hb : ∀ x ∈ xs, addressBelongsToPool p x = true) (hn : (V ++ xs).Nodup) :
    Swept env s (V ++ xs) (xs.foldl (checkLeaseAt env p.name) w) := by
  induction xs generalizing V w with
  | nil => simpa using h
  | cons x xs ih =>
    have hx : x ∉ V := fun hx => (List.nodup_append.mp hn).2.2 x hx x List.mem_cons_self rfl
    have hstep := h.step hd h1 hp (hb x List.mem_cons_self) hx
    have hassoc : V ++ x :: xs = V ++ [x] ++ xs := by rw [List.append_assoc, List.singleton_append]
    rw [hassoc] at hn ⊢
    exact ih hstep (fun y hy => hb y (List.mem_cons_of_mem _ hy)) hn

/-- The run lemma for the loop over the pools. -/
theorem Swept.pools {ps : List AddressPool} (h : Swept env s V w) (hd : s.allocator.Disjoint)
    (h1 : SingleRecords s) (hp : ∀ p ∈ ps, p ∈ s.allocator.addressPools)
    (hn : (V ++ ps.flatMap (·.checkedAddresses)).Nodup) :
    Swept env s (V ++ ps.flatMap (·.checkedAddresses)) (ps.foldl (checkLease env) w) := by
  induction ps generalizing V w with
  | nil => simpa using h
  | cons p ps ih =>
    rw [List.flatMap_cons, ← List.append_assoc] at hn ⊢
    have hb : ∀ x ∈ p.checkedAddresses, addressBelongsToPool p x = true :=
      fun x hx => AddressPool.mem_addresses.mp (List.mem_of_mem_dropLast hx)
    have hpool := h.addresses hd h1 (hp p List.mem_cons_self) hb (List.nodup_append.mp hn).1
    exact ih hpool (fun q hq => hp q (List.mem_cons_of_mem _ hq)) hn

/-- All addresses the check visits. -/
def checkedAddresses (s : Server) : List UInt32 :=
  s.allocator.addressPools.flatMap (·.checkedAddresses)

theorem mem_checked (hd : s.allocator.Disjoint) (hp : p ∈ s.allocator.addressPools) {x : UInt32}
    (hb : addressBelongsToPool p x = true) :
    x ∈ checkedAddresses s ↔ x ∈ p.checkedAddresses := by
  rw [checkedAddresses, List.mem_flatMap]
  constructor
  · intro h
    obtain ⟨q, hq, hx⟩ := h
    have hqb := AddressPool.mem_addresses.mp (List.mem_of_mem_dropLast hx)
    exact pool_unique hd hp hq hb hqb ▸ hx
  · exact fun hx => ⟨p, hp, hx⟩

theorem checkedAddresses_nodup (hd : s.allocator.Disjoint) : (checkedAddresses s).Nodup := by
  rw [checkedAddresses, List.nodup_flatMap]
  refine ⟨fun p _ => p.addresses_nodup.sublist (List.dropLast_sublist _), ?_⟩
  refine hd.imp ?_
  intro p q hpq x hx hq
  have hxp := AddressPool.mem_addresses.mp (List.mem_of_mem_dropLast hx)
  have hxq := hpq x hxp
  rw [AddressPool.mem_addresses.mp (List.mem_of_mem_dropLast hq)] at hxq
  cases hxq

end Run

section Exact

variable {env : Env} {s : Server} {w : Sweep} {p : AddressPool} {x y : UInt32} {r : LeaseRecord}
  {n : CString}

/-- The address `x` is visited before the address `y`. -/
def VisitedBefore (s : Server) (x y : UInt32) : Prop := x ∈ before (checkedAddresses s) y

/-- The visits take out all records that are due and no other: no address that is due is the last
one of its pool, the file of each can be opened, a record that stays because its file cannot be
cut goes when the file is left empty, and what is left empty held only records that are due, of
addresses that have been visited. -/
structure Removes (env : Env) (s : Server) : Prop where
  visited : ∀ p ∈ s.allocator.addressPools, dueAt env.now s p.endAddress = false
  opened : ∀ x, dueAt env.now s x = true → removal env s x ≠ .notOpened
  cut : ∀ x, dueAt env.now s x = true → removal env s x = .notTruncated →
    ∃ y, empties env s (fileOf s x) y = true
  last : ∀ x y, empties env s (fileOf s y) x = true → dueAt env.now s y = true →
    ¬VisitedBefore s x y
  expired : ∀ n x, empties env s (some n) x = true → ∀ r ∈ s.leases n,
    dueRecord env.now s n r = true

/-- Unless the last address of a pool is due, the check visits every address that is. -/
theorem checked_of_due (hd : s.allocator.Disjoint)
    (hlast : ∀ p ∈ s.allocator.addressPools, dueAt env.now s p.endAddress = false)
    (hx : dueAt env.now s x = true) : x ∈ checkedAddresses s := by
  obtain ⟨p, hp, hb⟩ := dueAt_pool hx
  have hmem := AddressPool.mem_addresses.mpr hb
  rw [AddressPool.addresses_eq, List.mem_append, List.mem_singleton] at hmem
  rcases hmem with hmem | rfl
  · exact (mem_checked hd hp hb).mpr hmem
  · rw [hlast p hp] at hx
    cases hx

theorem countP_checked (hd : s.allocator.Disjoint)
    (hlast : ∀ p ∈ s.allocator.addressPools, dueAt env.now s p.endAddress = false) :
    (checkedAddresses s).countP (fun x => dueAt env.now s x && addressBelongsToPool p x) =
      p.addresses.countP (dueAt env.now s) := by
  rw [List.countP_eq_length_filter, List.countP_eq_length_filter]
  apply List.Perm.length_eq
  rw [List.perm_ext_iff_of_nodup ((checkedAddresses_nodup hd).filter _) (p.addresses_nodup.filter _)]
  intro x
  rw [List.mem_filter, List.mem_filter, AddressPool.mem_addresses, Bool.and_eq_true]
  constructor
  · exact fun h => ⟨h.2.2, h.2.1⟩
  · exact fun h => ⟨checked_of_due hd hlast h.2, h.2, h.1⟩

/-- What the visits give back is exactly what is due. -/
theorem Removes.givenBack_eq (h : Removes env s) (hd : s.allocator.Disjoint) (x : UInt32) :
    givenBack env s (checkedAddresses s) x = dueAt env.now s x := by
  cases hx : dueAt env.now s x with
  | false => simp [givenBack, hx]
  | true =>
    have hmem := checked_of_due hd h.visited hx
    have hbefore : (before (checkedAddresses s) x).any (empties env s (fileOf s x)) = false := by
      rw [List.any_eq_false]
      exact fun y hy hempties => h.last y x hempties hx hy
    simp [givenBack, hx, hmem, h.opened x hx, hbefore]

/-- What they leave in the files is exactly what is not due. -/
theorem Removes.leftIn_eq (h : Removes env s) (hd : s.allocator.Disjoint) (n : CString) :
    leftIn env s (checkedAddresses s) n = (s.leases n).filter (!dueRecord env.now s n ·) := by
  unfold leftIn
  split
  · rename_i hany
    obtain ⟨x, -, hx⟩ := List.any_eq_true.mp hany
    symm
    rw [List.filter_eq_nil_iff]
    intro r hr
    simp [h.expired n x hx r hr]
  · rename_i hany
    rw [Bool.not_eq_true, List.any_eq_false] at hany
    apply List.filter_congr
    intro r hr
    cases hdue : dueRecord env.now s n r with
    | false => rfl
    | true =>
      have hx := dueAt_of_dueRecord hr hdue
      have hfile := fileOf_of_dueRecord hd hdue
      have hrem : removal env s r.address = env.sweeps n r.address := by rw [removal, hfile]; rfl
      have hmem := checked_of_due hd h.visited hx
      have hdone : env.sweeps n r.address = .done := by
        cases hrew : env.sweeps n r.address with
        | done => rfl
        | notOpened => exact absurd (hrem.trans hrew) (h.opened _ hx)
        | notTruncated =>
          obtain ⟨y, hy⟩ := h.cut _ hx (hrem.trans hrew)
          rw [hfile] at hy
          exact absurd hy (hany y (checked_of_due hd h.visited (due_of_empties hy)))
        | notWritten =>
          have hy : empties env s (some n) r.address = true := by
            simp [empties, hx, hrem, hrew, hfile]
          exact absurd hy (hany _ hmem)
      simp [hmem, hdone]

/-- A check that has visited all addresses that are due has done what is meant. -/
theorem Swept.exact (h : Swept env s (checkedAddresses s) w) (hd : s.allocator.Disjoint)
    (hr : Removes env s) : SweepsExactly env.now s w := by
  have hback := hr.givenBack_eq hd
  have hallocated : ∀ x, w.allocator.isAllocated x =
      (s.allocator.isAllocated x && !dueAt env.now s x) := by
    intro x
    rw [h.allocated, hback]
  refine ⟨h.shape, fun x hx => ?_, hallocated, fun n => ?_, ?_, ?_⟩
  · obtain ⟨p, hp, hb⟩ := dueAt_pool hx
    rw [AddressAllocator.isAvailable_eq, AddressAllocator.hasPool_of_shape h.shape, hallocated, hx,
      (AddressAllocator.hasPool_eq_true _ _).mpr ⟨p, hp, hb⟩]
    simp
  · rw [h.leases, hr.leftIn_eq hd]
  · refine forall₂_of_mem h.counters ?_
    intro p hp p' hp'
    simp only [hback] at hp'
    rwa [countP_checked hd hr.visited] at hp'
  · rw [h.released, funext hback, checkedAddresses, List.countP_flatMap]
    congr 1
    apply List.map_congr_left
    intro p hp
    show p.checkedAddresses.countP _ = _
    rw [AddressPool.addresses_eq, List.countP_append, ← AddressPool.checkedAddresses]
    simp [hr.visited p hp]

end Exact

end DHCPServer
