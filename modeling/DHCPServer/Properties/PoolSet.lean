import DHCPServer.Framework.FirstMatch
import DHCPServer.Pool.Refinement

namespace DHCPServer

/-- An action of `address_pool_address_allocation_ctl` on an address. -/
abbrev PoolCall := AllocationAction × UInt32

/-- The address was set and not cleared since. -/
def SetSince (calls : List PoolCall) (x : UInt32) : Prop :=
  ∃ before after, calls = before ++ (.set, x) :: after ∧ (.clear, x) ∉ after

/-- The addresses that are set and not cleared, after one more action. -/
def settingAfter (A : Set UInt32) : PoolCall → Set UInt32
  | (.set, x) => insert x A
  | (.clear, x) => A \ {x}
  | (.get, _) | (.invalid, _) => A

theorem setSince_concat (calls : List PoolCall) (c : PoolCall) :
    {x | SetSince (calls ++ [c]) x} = settingAfter {x | SetSince calls x} c := by
  have hsnoc (x : UInt32) : SetSince (calls ++ [c]) x ↔
      c = (.set, x) ∨ c ≠ (.clear, x) ∧ SetSince calls x := by
    constructor
    · rintro ⟨before, after, hsplit, hafter⟩
      rcases concat_eq_split_iff.mp hsplit with ⟨-, hc, -⟩ | ⟨after, rfl, hcalls⟩
      · exact .inl hc
      · rw [List.mem_append, not_or, List.mem_singleton] at hafter
        exact .inr ⟨fun hc => hafter.2 hc.symm, before, after, hcalls, hafter.1⟩
    · rintro (rfl | ⟨hc, before, after, rfl, hafter⟩)
      · exact ⟨calls, [], rfl, List.not_mem_nil⟩
      · refine ⟨before, after ++ [c], by simp, ?_⟩
        rw [List.mem_append, not_or, List.mem_singleton]
        exact ⟨hafter, fun h => hc h.symm⟩
  ext x
  obtain ⟨action, y⟩ := c
  rw [Set.mem_ofPred_eq, hsnoc]
  cases action with
  | set => simp [settingAfter, eq_comm]
  | clear => simp [settingAfter, and_comm, eq_comm]
  | get | invalid => simp [settingAfter]

theorem setSince_nil : {x | SetSince [] x} = ∅ := by
  ext x
  simp [SetSince]

namespace AddressPool

def perform (p : AddressPool) (c : PoolCall) : Int × AddressPool :=
  p.allocationCtl c.2 c.1

def after (p : AddressPool) (calls : List PoolCall) : AddressPool :=
  calls.foldl (fun p c => (p.perform c).2) p

/-- Exactly the bits of the pool's addresses in the set are 1, and the counter counts the others. -/
structure Stores (p : AddressPool) (A : Set UInt32) : Prop where
  covered : p.Covered
  bits : ∀ k, Bitmap.bitAt p.leasesBm k = true ↔
    ∃ x ∈ A, addressBelongsToPool p x = true ∧ p.number x = k
  counter : p.availableAddresses.toNat = (p.free A).ncard

section Actions

variable {p : AddressPool} {A : Set UInt32} {x : UInt32}

theorem Stores.isAllocated_iff (h : p.Stores A) :
    p.isAllocated x = true ↔ addressBelongsToPool p x = true ∧ x ∈ A := by
  rw [isAllocated, Bool.and_eq_true, h.bits]
  constructor
  · rintro ⟨hx, y, hy, hb, hn⟩
    obtain rfl := (number_inj hb hx).mp hn
    exact ⟨hx, hy⟩
  · rintro ⟨hx, hA⟩
    exact ⟨hx, x, hA, hx, rfl⟩

/-- Addresses outside the pool do not matter. -/
theorem Stores.outside (h : p.Stores A) (hx : addressBelongsToPool p x = false) {B : Set UInt32}
    (hB : ∀ y, y ≠ x → (y ∈ B ↔ y ∈ A)) : p.Stores B := by
  have hsame : ∀ y, addressBelongsToPool p y = true → (y ∈ B ↔ y ∈ A) := by
    intro y hy
    apply hB
    rintro rfl
    simp [hx] at hy
  refine ⟨h.covered, ?_, ?_⟩
  · intro k
    rw [h.bits]
    apply exists_congr
    intro y
    constructor
    · rintro ⟨hA, hb, hn⟩
      exact ⟨(hsame y hb).mpr hA, hb, hn⟩
    · rintro ⟨hA, hb, hn⟩
      exact ⟨(hsame y hb).mp hA, hb, hn⟩
  · rw [h.counter, free_of_notMem hx B hB]

theorem bitAt_mark (hc : p.Covered) (hx : addressBelongsToPool p x = true) (k : Nat) :
    Bitmap.bitAt (p.mark x).leasesBm k = (k == p.number x || Bitmap.bitAt p.leasesBm k) :=
  Bitmap.bitAt_setBit (number_div_lt hc hx)

theorem bitAt_unmark (hx : p.isAllocated x = true) (k : Nat) :
    Bitmap.bitAt (p.unmark x).leasesBm k = (k != p.number x && Bitmap.bitAt p.leasesBm k) := by
  rw [isAllocated, Bool.and_eq_true] at hx
  exact Bitmap.bitAt_clearBit hx.2

theorem Stores.mark (h : p.Stores A) (hx : addressBelongsToPool p x = true) (hA : x ∉ A) :
    (p.mark x).Stores (insert x A) := by
  refine ⟨(covered_of_shape p.mark_shape).mpr h.covered, ?_, mark_counter hx hA h.counter⟩
  intro k
  rw [bitAt_mark h.covered hx, Bool.or_eq_true, beq_iff_eq, h.bits]
  constructor
  · rintro (rfl | ⟨y, hy, hb, hn⟩)
    · exact ⟨x, Set.mem_insert x A, hx, rfl⟩
    · exact ⟨y, Set.mem_insert_of_mem x hy, hb, hn⟩
  · rintro ⟨y, hy, hb, hn⟩
    rcases Set.mem_insert_iff.mp hy with rfl | hy
    · exact .inl hn.symm
    · exact .inr ⟨y, hy, hb, hn⟩

theorem Stores.unmark (h : p.Stores A) (hx : addressBelongsToPool p x = true) (hA : x ∈ A) :
    (p.unmark x).Stores (A \ {x}) := by
  have halloc := h.isAllocated_iff.mpr ⟨hx, hA⟩
  refine ⟨(covered_of_shape p.unmark_shape).mpr h.covered, ?_, unmark_counter hx hA h.counter⟩
  intro k
  rw [bitAt_unmark halloc, Bool.and_eq_true, bne_iff_ne, h.bits]
  constructor
  · rintro ⟨hk, y, hy, hb, rfl⟩
    refine ⟨y, ⟨hy, ?_⟩, hb, rfl⟩
    rintro rfl
    exact hk rfl
  · rintro ⟨y, hy, hb, rfl⟩
    refine ⟨?_, y, hy.1, hb, rfl⟩
    intro hn
    exact hy.2 ((number_inj hb hx).mp hn)

theorem perform_set : p.perform (.set, x) =
    if addressBelongsToPool p x && !p.isAllocated x then (0, p.mark x) else (-1, p) := set_eq

theorem perform_clear : p.perform (.clear, x) =
    if p.isAllocated x then (0, p.unmark x) else (-1, p) := clear_eq

theorem perform_get : p.perform (.get, x) =
    (if addressBelongsToPool p x then (if p.isAllocated x then 1 else 0) else -1, p) := by
  refine Prod.ext get_eq ?_
  rw [perform, allocationCtl]
  split <;> rfl

theorem perform_invalid : p.perform (.invalid, x) = (-1, p) := by
  rw [perform, allocationCtl]
  split <;> rfl

theorem perform_shape (p : AddressPool) (c : PoolCall) : (p.perform c).2.shape = p.shape := by
  obtain ⟨action, x⟩ := c
  cases action with
  | set =>
    rw [perform_set]
    split <;> rfl
  | clear =>
    rw [perform_clear]
    split <;> rfl
  | get => rw [perform_get]
  | invalid => rw [perform_invalid]

/-- An action does to the bitmap what it does to the set. -/
theorem Stores.perform (h : p.Stores A) (c : PoolCall) :
    (p.perform c).2.Stores (settingAfter A c) := by
  obtain ⟨action, x⟩ := c
  have halloc := h.isAllocated_iff (x := x)
  cases action with
  | set =>
    rw [perform_set, settingAfter]
    cases hb : addressBelongsToPool p x with
    | false => exact h.outside hb fun y hy => by simp [hy]
    | true =>
      by_cases hA : x ∈ A
      · rw [halloc.mpr ⟨hb, hA⟩, Set.insert_eq_of_mem hA]
        exact h
      · rw [Bool.eq_false_iff.mpr fun hx => hA (halloc.mp hx).2]
        exact h.mark hb hA
  | clear =>
    rw [perform_clear, settingAfter]
    cases hb : addressBelongsToPool p x with
    | false =>
      rw [Bool.eq_false_iff.mpr fun hx => Bool.false_ne_true (hb.symm.trans (halloc.mp hx).1)]
      exact h.outside hb fun y hy => by simp [hy]
    | true =>
      by_cases hA : x ∈ A
      · rw [halloc.mpr ⟨hb, hA⟩]
        exact h.unmark hb hA
      · rw [Bool.eq_false_iff.mpr fun hx => hA (halloc.mp hx).2, Set.sdiff_singleton_eq_self hA]
        exact h
  | get =>
    rw [perform_get]
    exact h
  | invalid =>
    rw [perform_invalid]
    exact h

end Actions

section Runs

variable {pool : AddressPool}

theorem after_concat (calls : List PoolCall) (c : PoolCall) :
    pool.after (calls ++ [c]) = ((pool.after calls).perform c).2 := List.foldl_append ..

theorem after_shape (calls : List PoolCall) : (pool.after calls).shape = pool.shape := by
  induction calls using List.reverseRecOn with
  | nil => rfl
  | append_singleton calls c ih => rw [after_concat, perform_shape, ih]

/-- Behind a sequence of actions the bitmap stores the addresses set and not cleared since. -/
theorem Stores.after (h : pool.Stores ∅) (calls : List PoolCall) :
    (pool.after calls).Stores {x | SetSince calls x} := by
  induction calls using List.reverseRecOn with
  | nil =>
    rw [setSince_nil]
    exact h
  | append_singleton calls c ih =>
    rw [after_concat, setSince_concat]
    exact ih.perform c

theorem stores_new {name : CString} {start «end» mask : UInt32}
    (h : addressPoolNew name start «end» mask = some pool)
    (hwrap : «end».toNat - start.toNat + 8 < 2 ^ 32) : pool.Stores ∅ := by
  obtain ⟨hshape, hbm, hav⟩ := addressPoolNew_eq_some h
  simp only [shape, Prod.mk.injEq] at hshape
  obtain ⟨-, rfl, rfl, -, -⟩ := hshape
  have hordered := UInt32.lt_iff_toNat_lt.mp pool.ordered
  refine ⟨covered_iff.mpr hwrap, ?_, ?_⟩
  · intro k
    simp [hbm]
  · rw [hav, ncard_free_empty, UInt32.toNat_add,
      UInt32.toNat_sub_of_le _ _ (UInt32.le_iff_toNat_le.mpr hordered.le), UInt32.toNat_one]
    exact Nat.mod_eq_of_lt (by omega)

end Runs

end AddressPool

/-- The bitmap and the counter of a pool behind a sequence of actions, as a set of addresses: no call
goes out of bounds, what each action answers and changes, where it looks, and what is counted. -/
structure BitmapLaws (pool : AddressPool) (calls : List PoolCall) : Prop where
  defined : ∀ c : PoolCall, addressPoolAddressAllocationCtl (pool.after calls) c.2 c.1 =
    .ok ((pool.after calls).perform c)
  member : ∀ x, addressBelongsToPool pool x = true → SetSince calls x →
    ((pool.after calls).perform (.get, x)).1 = 1
  missing : ∀ x, addressBelongsToPool pool x = true → ¬SetSince calls x →
    ((pool.after calls).perform (.get, x)).1 = 0
  outside : ∀ x, addressBelongsToPool pool x = false →
    ((pool.after calls).perform (.get, x)).1 = -1
  succeeds : ∀ x action, action = .set ∨ action = .clear →
    (((pool.after calls).perform (action, x)).1 = 0 ↔ addressBelongsToPool pool x = true ∧
      ¬(SetSince (calls ++ [(action, x)]) x ↔ SetSince calls x))
  changes : ∀ x action, action = .set ∨ action = .clear →
    ((pool.after calls).perform (action, x)).1 = 0 → ∀ k,
      Bitmap.bitAt ((pool.after calls).perform (action, x)).2.leasesBm k =
        if k = pool.number x then decide (action = .set)
        else Bitmap.bitAt (pool.after calls).leasesBm k
  fails : ∀ c, ((pool.after calls).perform c).1 ≠ 0 ∨ c.1 = .get →
    ((pool.after calls).perform c).2 = pool.after calls
  index : ∀ x, addressBelongsToPool pool x = true →
    (x - pool.startAddress) / 8 < poolRange pool.startAddress pool.endAddress ∧
      (pool.after calls).leasesBm.length = (poolRange pool.startAddress pool.endAddress).toNat
  past : ∀ k, pool.endAddress.toNat - pool.startAddress.toNat < k →
    Bitmap.bitAt (pool.after calls).leasesBm k = false
  counter : (pool.after calls).availableAddresses.toNat =
    {x | addressBelongsToPool pool x = true ∧
      Bitmap.bitAt (pool.after calls).leasesBm (pool.number x) = false}.ncard
  counted : ∀ x, (((pool.after calls).perform (.set, x)).1 = 0 →
      ((pool.after calls).perform (.set, x)).2.availableAddresses.toNat + 1 =
        (pool.after calls).availableAddresses.toNat) ∧
    (((pool.after calls).perform (.clear, x)).1 = 0 →
      ((pool.after calls).perform (.clear, x)).2.availableAddresses.toNat =
        (pool.after calls).availableAddresses.toNat + 1)

section Laws

variable {p pool : AddressPool} {A : Set UInt32} {x : UInt32} {calls : List PoolCall}

namespace AddressPool

theorem perform_set_iff (h : p.Stores A) :
    (p.perform (.set, x)).1 = 0 ↔ addressBelongsToPool p x = true ∧ x ∉ A := by
  have halloc := h.isAllocated_iff (x := x)
  rw [perform_set]
  cases hb : addressBelongsToPool p x with
  | false => simp
  | true =>
    cases ha : p.isAllocated x with
    | false => simpa [ha, hb] using halloc
    | true => simpa [ha, hb] using halloc

theorem perform_clear_iff (h : p.Stores A) :
    (p.perform (.clear, x)).1 = 0 ↔ addressBelongsToPool p x = true ∧ x ∈ A := by
  rw [perform_clear, ← h.isAllocated_iff]
  cases p.isAllocated x with
  | false => simp
  | true => simp

theorem perform_fails {c : PoolCall} (hc : (p.perform c).1 ≠ 0 ∨ c.1 = .get) :
    (p.perform c).2 = p := by
  obtain ⟨action, x⟩ := c
  cases action with
  | set =>
    rw [perform_set] at hc ⊢
    split
    · rename_i hset
      simp [hset] at hc
    · rfl
  | clear =>
    rw [perform_clear] at hc ⊢
    split
    · rename_i hclear
      simp [hclear] at hc
    · rfl
  | get => rw [perform_get]
  | invalid => rw [perform_invalid]

theorem number_of_shape (h : p.shape = pool.shape) (x : UInt32) : p.number x = pool.number x := by
  simp only [shape, Prod.mk.injEq] at h
  rw [number, number, h.2.1]

theorem perform_bits (h : p.Stores A) {action : AllocationAction}
    (haction : action = .set ∨ action = .clear) (hrv : (p.perform (action, x)).1 = 0) (k : Nat) :
    Bitmap.bitAt (p.perform (action, x)).2.leasesBm k =
      if k = p.number x then decide (action = .set) else Bitmap.bitAt p.leasesBm k := by
  have halloc := h.isAllocated_iff (x := x)
  rcases haction with rfl | rfl
  · obtain ⟨hb, hA⟩ := (perform_set_iff h).mp hrv
    have hfree : p.isAllocated x = false := Bool.eq_false_iff.mpr fun hx => hA (halloc.mp hx).2
    rw [perform_set, hb, hfree]
    change Bitmap.bitAt (p.mark x).leasesBm k = _
    rw [bitAt_mark h.covered hb]
    by_cases hk : k = p.number x
    · simp [hk]
    · simp [hk]
  · have hset := halloc.mpr ((perform_clear_iff h).mp hrv)
    rw [perform_clear, hset, if_pos rfl, bitAt_unmark hset]
    by_cases hk : k = p.number x
    · simp [hk]
    · simp [hk]

theorem Stores.past (h : p.Stores A) {k : Nat} (hk : p.endAddress.toNat - p.startAddress.toNat < k) :
    Bitmap.bitAt p.leasesBm k = false := by
  rw [Bool.eq_false_iff]
  intro hbit
  obtain ⟨x, -, hb, rfl⟩ := (h.bits k).mp hbit
  have hx := belongs_iff.mp hb
  rw [number_eq hb] at hk
  omega

/-- The free addresses are those whose bit is 0. -/
theorem Stores.free_eq (h : p.Stores A) : p.free A =
    {x | addressBelongsToPool p x = true ∧ Bitmap.bitAt p.leasesBm (p.number x) = false} := by
  ext x
  have halloc := h.isAllocated_iff (x := x)
  rw [free, Set.mem_ofPred_eq, Set.mem_ofPred_eq]
  apply and_congr_right
  intro hb
  rw [isAllocated, hb, Bool.true_and] at halloc
  rw [Bool.eq_false_iff, ne_eq, halloc]
  simp

theorem perform_set_counted (h : p.Stores A) (hrv : (p.perform (.set, x)).1 = 0) :
    (p.perform (.set, x)).2.availableAddresses.toNat + 1 = p.availableAddresses.toNat := by
  obtain ⟨hb, hA⟩ := (perform_set_iff h).mp hrv
  have hfree : p.isAllocated x = false :=
    Bool.eq_false_iff.mpr fun hx => hA (h.isAllocated_iff.mp hx).2
  have hmem : x ∈ p.free A := ⟨hb, hA⟩
  have hcounter := mark_counter hb hA h.counter
  rw [free_insert] at hcounter
  rw [perform_set, hb, hfree, h.counter, ← Set.ncard_sdiff_singleton_add_one hmem (p.free_finite A),
    ← hcounter]
  rfl

theorem perform_clear_counted (h : p.Stores A) (hrv : (p.perform (.clear, x)).1 = 0) :
    (p.perform (.clear, x)).2.availableAddresses.toNat = p.availableAddresses.toNat + 1 := by
  obtain ⟨hb, hA⟩ := (perform_clear_iff h).mp hrv
  have hnot : x ∉ p.free A := fun hx => hx.2 hA
  have hcounter := unmark_counter hb hA h.counter
  rw [free_remove hb hA, Set.ncard_insert_of_notMem hnot (p.free_finite A)] at hcounter
  rw [perform_clear, h.isAllocated_iff.mpr ⟨hb, hA⟩, h.counter, ← hcounter]
  rfl

end AddressPool

open AddressPool

theorem AddressPool.Stores.laws (h : pool.Stores ∅) (calls : List PoolCall) :
    BitmapLaws pool calls := by
  have hstores := h.after calls
  have hshape : (pool.after calls).shape = pool.shape := after_shape calls
  have hbelongs : ∀ x, addressBelongsToPool (pool.after calls) x = addressBelongsToPool pool x :=
    belongs_of_shape hshape
  have hnumber : ∀ x, (pool.after calls).number x = pool.number x := number_of_shape hshape
  have hmember (x : UInt32) (hx : addressBelongsToPool pool x = true) :
      (pool.after calls).isAllocated x = true ↔ SetSince calls x := by
    rw [hstores.isAllocated_iff, hbelongs]
    exact and_iff_right hx
  constructor
  · intro c
    rw [allocationCtl_eq, if_neg (not_and_not_right.mpr fun _ => hstores.covered)]
    rfl
  · intro x hx hset
    rw [perform_get, hbelongs, hx, (hmember x hx).mpr hset]
    rfl
  · intro x hx hset
    rw [perform_get, hbelongs, hx, Bool.eq_false_iff.mpr (mt (hmember x hx).mp hset)]
    rfl
  · intro x hx
    rw [perform_get, hbelongs, hx]
    rfl
  · intro x action haction
    have hx : SetSince (calls ++ [(action, x)]) x ↔
        x ∈ settingAfter {x | SetSince calls x} (action, x) := by
      rw [← setSince_concat, Set.mem_ofPred_eq]
    rw [hx]
    rcases haction with rfl | rfl
    · rw [perform_set_iff hstores, hbelongs]
      simp [settingAfter]
    · rw [perform_clear_iff hstores, hbelongs]
      simp [settingAfter]
  · intro x action haction hrv k
    rw [perform_bits hstores haction hrv, hnumber]
  · intro c hc
    exact perform_fails hc
  · intro x hx
    have hindex := number_div_lt h.covered hx
    rw [pool.bitmapSize] at hindex
    have hsize := (pool.after calls).bitmapSize
    simp only [shape, Prod.mk.injEq] at hshape
    rw [hshape.2.1, hshape.2.2.1] at hsize
    refine ⟨?_, hsize⟩
    rw [UInt32.lt_iff_toNat_lt, (index_eq _).1]
    exact hindex
  · intro k hk
    simp only [shape, Prod.mk.injEq] at hshape
    apply hstores.past
    rwa [hshape.2.1, hshape.2.2.1]
  · rw [hstores.counter, hstores.free_eq]
    simp only [hbelongs, hnumber]
  · intro x
    exact ⟨perform_set_counted hstores, perform_clear_counted hstores⟩

end Laws

/-- Every pool that is made, for whose range the size of the bitmap does not wrap, stores a set of
addresses under any sequence of actions. -/
theorem pool_bitmap_laws {name : CString} {start «end» mask : UInt32} {pool : AddressPool}
    (h : addressPoolNew name start «end» mask = some pool)
    (hwrap : «end».toNat - start.toNat + 8 < 2 ^ 32) (calls : List PoolCall) :
    BitmapLaws pool calls :=
  (AddressPool.stores_new h hwrap).laws calls

/-- A pool of eleven addresses, which do not fill its second byte. -/
theorem pool_bitmap_eleven : ∃ pool,
    addressPoolNew [] 0x0a000001 0x0a00000b 0xffffff00 = some pool ∧
      BitmapLaws pool [(.set, 0x0a00000b), (.set, 0x0a000001), (.clear, 0x0a00000b),
        (.get, 0x0a00000c)] := by
  obtain ⟨pool, hpool⟩ := Option.isSome_iff_exists.mp
    (by decide +kernel : (addressPoolNew [] 0x0a000001 0x0a00000b 0xffffff00).isSome = true)
  exact ⟨pool, hpool, pool_bitmap_laws hpool (by decide) _⟩

end DHCPServer
