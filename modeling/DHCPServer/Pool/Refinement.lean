import Mathlib.Data.Set.Card
import DHCPServer.Pool.Allocator

namespace DHCPServer

/-- The addresses of a pool that are not in a set of outstanding addresses. -/
def AddressPool.free (p : AddressPool) (A : Set UInt32) : Set UInt32 :=
  {y | addressBelongsToPool p y = true ∧ y ∉ A}

/-- The operations of the allocator that grant and take back addresses. -/
inductive AllocatorOp
  | requestAny
  | requestFromPool (name : CString)
  | requestThis (x : UInt32)
  | release (x : UInt32)

namespace AddressAllocator

def perform (a : AddressAllocator) : AllocatorOp → Reply × AddressAllocator
  | .requestAny => allocatorRequestAnyAddress a
  | .requestFromPool name => allocatorRequestAddressFromPool a name
  | .requestThis x => allocatorRequestThisAddress a x
  | .release x => allocatorReleaseAddress a x

end AddressAllocator

/-- The set of addresses granted and not since released, after one more call and its reply. -/
def outstandingAfter (A : Set UInt32) (op : AllocatorOp) (reply : Reply) : Set UInt32 :=
  match op with
  | .release x => if reply.1 = .ok then A \ {x} else A
  | _ =>
    match reply.2 with
    | some x => insert x A
    | none => A

/-- A sequence of calls, with the outstanding set that its replies amount to. -/
def performAll (a : AddressAllocator) (A : Set UInt32) :
    List AllocatorOp → AddressAllocator × Set UInt32
  | [] => (a, A)
  | op :: ops =>
    performAll (a.perform op).2 (outstandingAfter A op (a.perform op).1) ops

namespace AddressAllocator

/-- The bitmaps and the counters of the allocator stand for the set `A`. -/
structure Represents (a : AddressAllocator) (A : Set UInt32) : Prop extends WellFormed a where
  bits : ∀ p ∈ a.addressPools, ∀ x,
    p.isAllocated x = true ↔ addressBelongsToPool p x = true ∧ x ∈ A
  inside : ∀ x ∈ A, a.hasPool x = true
  counters : ∀ p ∈ a.addressPools, p.availableAddresses.toNat = (p.free A).ncard

/-- An allocator whose pools come straight from `address_pool_new`. -/
structure Fresh (a : AddressAllocator) : Prop where
  made : ∀ p ∈ a.addressPools, ∃ name start «end» mask,
    addressPoolNew name start «end» mask = some p ∧ «end».toNat - start.toNat + 8 < 2 ^ 32
  disjoint : a.Disjoint
  names : (a.addressPools.map AddressPool.name).Nodup

end AddressAllocator

namespace AddressPool

variable {p : AddressPool} {A : Set UInt32} {x : UInt32}

theorem free_finite (p : AddressPool) (A : Set UInt32) : (p.free A).Finite := by
  refine (List.finite_toSet p.addresses).subset ?_
  intro y hy
  exact mem_addresses.mpr hy.1

theorem free_insert (p : AddressPool) (A : Set UInt32) (x : UInt32) :
    p.free (insert x A) = p.free A \ {x} := by
  ext y
  simp only [free, Set.mem_ofPred_eq, Set.mem_insert_iff, Set.mem_sdiff, Set.mem_singleton_iff]
  tauto

theorem free_of_notMem (hx : addressBelongsToPool p x = false) (B : Set UInt32)
    (hB : ∀ y, y ≠ x → (y ∈ B ↔ y ∈ A)) : p.free B = p.free A := by
  ext y
  have hne : addressBelongsToPool p y = true → y ≠ x := by
    rintro hy rfl
    simp [hx] at hy
  simp only [free, Set.mem_ofPred_eq]
  exact and_congr_right fun hy => not_congr (hB y (hne hy))

theorem free_remove (hb : addressBelongsToPool p x = true) (hx : x ∈ A) :
    p.free (A \ {x}) = insert x (p.free A) := by
  ext y
  simp only [free, Set.mem_ofPred_eq, Set.mem_sdiff, Set.mem_singleton_iff, Set.mem_insert_iff]
  by_cases hy : y = x
  · subst hy
    simp [hb]
  · simp [hy]

theorem ncard_free_empty (p : AddressPool) :
    (p.free ∅).ncard = p.endAddress.toNat - p.startAddress.toNat + 1 := by
  have hset : p.free ∅ = (p.addresses.toFinset : Set UInt32) := by
    ext y
    simp [free, mem_addresses]
  have hnd : p.addresses.Nodup := p.addresses_nodup
  rw [hset, Set.ncard_coe_finset, List.toFinset_card_of_nodup hnd, length_addresses]

/-- The counter goes down with the number of free addresses; it is positive as long as one is. -/
theorem mark_counter (hb : addressBelongsToPool p x = true) (hx : x ∉ A)
    (hcount : p.availableAddresses.toNat = (p.free A).ncard) :
    (p.mark x).availableAddresses.toNat = (p.free (insert x A)).ncard := by
  have hmem : x ∈ p.free A := ⟨hb, hx⟩
  have hpos : 0 < (p.free A).ncard := (Set.ncard_pos (p.free_finite A)).mpr ⟨x, hmem⟩
  have hone : (1 : UInt32) ≤ p.availableAddresses := by
    rw [UInt32.le_iff_toNat_le, UInt32.toNat_one]
    omega
  have hav : (p.mark x).availableAddresses = p.availableAddresses - 1 := rfl
  rw [free_insert, Set.ncard_sdiff_singleton_of_mem hmem, hav,
    UInt32.toNat_sub_of_le _ _ hone, UInt32.toNat_one, hcount]

/-- The number of free addresses with one more stays below 32 bits. -/
theorem ncard_free_lt (hb : addressBelongsToPool p x = true) (hx : x ∈ A) :
    (p.free A).ncard + 1 < 2 ^ 32 := by
  have hnot : x ∉ p.free A := fun h => h.2 hx
  have hle : (insert x (p.free A)).ncard ≤ (p.free ∅).ncard := by
    refine Set.ncard_le_ncard (Set.insert_subset ?_ ?_) (p.free_finite ∅)
    · exact ⟨hb, by simp⟩
    · exact fun y hy => ⟨hy.1, by simp⟩
  have hbounded := UInt32.lt_iff_toNat_lt.mp p.bounded
  simp only [UInt32.reduceToNat] at hbounded
  rw [ncard_free_empty, Set.ncard_insert_of_notMem hnot (p.free_finite A)] at hle
  omega

/-- The counter goes up with the number of free addresses. -/
theorem unmark_counter (hb : addressBelongsToPool p x = true) (hx : x ∈ A)
    (hcount : p.availableAddresses.toNat = (p.free A).ncard) :
    (p.unmark x).availableAddresses.toNat = (p.free (A \ {x})).ncard := by
  have hnot : x ∉ p.free A := fun h => h.2 hx
  have hav : (p.unmark x).availableAddresses = p.availableAddresses + 1 := rfl
  rw [free_remove hb hx, Set.ncard_insert_of_notMem hnot (p.free_finite A), hav, UInt32.toNat_add,
    hcount, UInt32.toNat_one]
  exact Nat.mod_eq_of_lt (ncard_free_lt hb hx)

end AddressPool

namespace AddressAllocator

variable {a a' : AddressAllocator} {A : Set UInt32} {x : UInt32}

theorem represents_of_fresh (h : a.Fresh) : a.Represents ∅ := by
  have hshape : ∀ p ∈ a.addressPools, p.Covered ∧ (∀ x, p.isAllocated x = false) ∧
      p.availableAddresses.toNat = p.endAddress.toNat - p.startAddress.toNat + 1 := by
    intro p hp
    obtain ⟨name, start, «end», mask, hnew, hwrap⟩ := h.made p hp
    obtain ⟨hs, hbm, hav⟩ := AddressPool.addressPoolNew_eq_some hnew
    simp only [AddressPool.shape, Prod.mk.injEq] at hs
    obtain ⟨-, rfl, rfl, -, -⟩ := hs
    have ho := UInt32.lt_iff_toNat_lt.mp p.ordered
    have hle := UInt32.le_iff_toNat_le.mpr ho.le
    refine ⟨AddressPool.covered_iff.mpr hwrap, ?_, ?_⟩
    · intro x
      rw [AddressPool.isAllocated, hbm, Bitmap.bitAt_replicate_zero, Bool.and_false]
    · rw [hav, UInt32.toNat_add, UInt32.toNat_sub_of_le _ _ hle, UInt32.toNat_one]
      exact Nat.mod_eq_of_lt (by omega)
  refine ⟨⟨h.disjoint, fun p hp => (hshape p hp).1, h.names⟩, ?_, by simp, ?_⟩
  · intro p hp x
    simp [(hshape p hp).2.1 x]
  · intro p hp
    rw [(hshape p hp).2.2, AddressPool.ncard_free_empty]

/-- With disjoint pools the outstanding addresses are the allocated ones. -/
theorem Represents.isAllocated_iff (h : a.Represents A) : a.isAllocated x = true ↔ x ∈ A := by
  constructor
  · intro hx
    obtain ⟨p, hp, hpx⟩ := (Option.any_eq_true _ _).mp hx
    exact ((h.bits p (List.mem_of_find?_eq_some hp) x).mp hpx).2
  · intro hx
    obtain ⟨p, hp⟩ := Option.isSome_iff_exists.mp (h.inside x hx)
    have hb : addressBelongsToPool p x = true := by simpa using List.find?_some hp
    refine (Option.any_eq_true _ _).mpr ⟨p, hp, ?_⟩
    exact (h.bits p (List.mem_of_find?_eq_some hp) x).mpr ⟨hb, hx⟩

/-- Replacing one pool by another of the same shape, when only the membership of one of its
addresses changes. -/
theorem Represents.replace {pre post : List AddressPool} {p p' : AddressPool} {B : Set UInt32}
    (h : a.Represents A) (hsplit : a.addressPools = pre ++ p :: post)
    (hx : addressBelongsToPool p x = true) (hs : p'.shape = p.shape)
    (hB : ∀ y, y ≠ x → (y ∈ B ↔ y ∈ A))
    (hbits : ∀ y, p'.isAllocated y = true ↔ addressBelongsToPool p y = true ∧ y ∈ B)
    (hcount : p'.availableAddresses.toNat = (p.free B).ncard) :
    (a.setPools (pre ++ p' :: post)).Represents B := by
  have hother := disjoint_split h.disjoint hsplit hx
  have hp : p ∈ a.addressPools := by simp [hsplit]
  have hshape : (a.setPools (pre ++ p' :: post)).shape = a.shape := by
    rw [AddressAllocator.shape, AddressAllocator.shape, hsplit, ← shape_replace pre post hs]
    rfl
  have hcases : ∀ q ∈ pre ++ p' :: post, q = p' ∨
      (q ∈ a.addressPools ∧ addressBelongsToPool q x = false) := by
    intro q hq
    rw [hsplit]
    rcases List.mem_append.mp hq with hq | hq
    · exact .inr ⟨by simp [hq], hother q (by simp [hq])⟩
    · rcases List.mem_cons.mp hq with rfl | hq
      · exact .inl rfl
      · exact .inr ⟨by simp [hq], hother q (by simp [hq])⟩
  refine ⟨wellFormed_of_shape hshape h.toWellFormed, ?_, ?_, ?_⟩
  · intro q hq y
    rcases hcases q hq with rfl | ⟨hq, hqx⟩
    · rw [hbits y, AddressPool.belongs_of_shape hs]
    · rw [h.bits q hq y]
      refine and_congr_right fun hb => (hB y ?_).symm
      rintro rfl
      simp [hqx] at hb
  · intro y hy
    rw [hasPool_of_shape hshape]
    by_cases hyx : y = x
    · subst hyx
      exact (hasPool_eq_true a y).mpr ⟨p, hp, hx⟩
    · exact h.inside y ((hB y hyx).mp hy)
  · intro q hq
    rcases hcases q hq with rfl | ⟨hq, hqx⟩
    · rw [hcount]
      congr 1
      ext y
      simp only [AddressPool.free, Set.mem_ofPred_eq, AddressPool.belongs_of_shape hs]
    · rw [h.counters q hq, AddressPool.free_of_notMem hqx B hB]

theorem Represents.grant {pre post : List AddressPool} {p : AddressPool} (h : a.Represents A)
    (hg : Grants a a' pre p post x) : a'.Represents (insert x A) := by
  have hp : p ∈ a.addressPools := by simp [hg.before]
  have hxA : x ∉ A := by
    intro hx
    have := (h.bits p hp x).mpr ⟨hg.belongs, hx⟩
    simp [hg.free] at this
  rw [hg.after]
  refine h.replace hg.before hg.belongs p.mark_shape ?_ ?_ ?_
  · intro y hy
    simp [hy]
  · intro y
    by_cases hy : y = x
    · subst hy
      simp [AddressPool.mark_isAllocated_self (h.covered p hp) hg.belongs, hg.belongs]
    · rw [AddressPool.mark_isAllocated_ne hg.belongs hy, h.bits p hp y]
      simp [hy]
  · exact AddressPool.mark_counter hg.belongs hxA (h.counters p hp)

theorem Represents.release {pre post : List AddressPool} {p : AddressPool} (h : a.Represents A)
    (hf : Frees a a' pre p post x) : a'.Represents (A \ {x}) := by
  have hp : p ∈ a.addressPools := by simp [hf.before]
  have hxA : x ∈ A := ((h.bits p hp x).mp hf.allocated).2
  rw [hf.after]
  refine h.replace hf.before hf.belongs p.unmark_shape ?_ ?_ ?_
  · intro y hy
    simp [hy]
  · intro y
    rw [AddressPool.unmark_isAllocated hf.allocated, Bool.and_eq_true, h.bits p hp y, bne_iff_ne]
    simp only [Set.mem_sdiff, Set.mem_singleton_iff]
    tauto
  · exact AddressPool.unmark_counter hf.belongs hxA (h.counters p hp)

theorem Represents.passedOver_iff (h : a.Represents A) {q : AddressPool}
    (hq : q ∈ a.addressPools) : passedOver q ↔ q.free A = ∅ := by
  have hfull : (∀ y, addressBelongsToPool q y = true → q.isAllocated y = true) ↔ q.free A = ∅ := by
    rw [Set.eq_empty_iff_forall_notMem]
    refine forall_congr' fun y => ?_
    rw [h.bits q hq y, AddressPool.free, Set.mem_ofPred_eq]
    tauto
  constructor
  · rintro (hz | hall)
    · have hcount := h.counters q hq
      rw [hz, UInt32.toNat_zero] at hcount
      exact (Set.ncard_eq_zero (q.free_finite A)).mp hcount.symm
    · exact hfull.mp hall
  · exact fun he => .inr (hfull.mpr he)

/-- The address a scan takes is the least free one. -/
theorem Represents.isLeast (h : a.Represents A) {p : AddressPool} (hp : p ∈ a.addressPools)
    (hb : addressBelongsToPool p x = true) (hf : p.isAllocated x = false)
    (hl : ∀ y, addressBelongsToPool p y = true → y < x → p.isAllocated y = true) :
    IsLeast (p.free A) x := by
  refine ⟨⟨hb, fun hx => ?_⟩, fun y hy => ?_⟩
  · have := (h.bits p hp x).mpr ⟨hb, hx⟩
    simp [hf] at this
  · by_contra hlt
    have hlt' : y < x := UInt32.not_le.mp hlt
    exact hy.2 ((h.bits p hp y).mp (hl y hy.1 hlt')).2

/-- The allocator answers every call as the set `A` of outstanding addresses prescribes, and a
call that does not succeed changes nothing. -/
structure AnswersBy (a : AddressAllocator) (A : Set UInt32) : Prop where
  available : ∀ x, allocatorIsAddressAvailable a x = true ↔ a.hasPool x = true ∧ x ∉ A
  requestThis : ∀ x reply a', allocatorRequestThisAddress a x = (reply, a') →
    (reply.1 = .ok ↔ a.hasPool x = true ∧ x ∉ A) ∧ (reply.1 = .addrInUse ↔ x ∈ A) ∧
    (reply.1 = .cannotCreateLease ↔ a.hasPool x = false) ∧
    (reply.1 = .ok → reply.2 = some x ∧ a'.Represents (insert x A)) ∧
    (reply.1 ≠ .ok → reply.2 = none ∧ a' = a)
  requestFromPool : ∀ p ∈ a.addressPools, ∀ reply a',
    allocatorRequestAddressFromPool a p.name = (reply, a') →
    (reply.1 = .poolDepleted ∧ p.free A = ∅ ∧ reply.2 = none ∧ a' = a) ∨
    (reply.1 = .ok ∧ ∃ x, reply.2 = some x ∧ IsLeast (p.free A) x ∧ a'.Represents (insert x A))
  requestFromUnknown : ∀ name, (∀ p ∈ a.addressPools, p.name ≠ name) →
    allocatorRequestAddressFromPool a name = ((.error, none), a)
  requestAny : ∀ reply a', allocatorRequestAnyAddress a = (reply, a') →
    (reply.2 = none ∧ a' = a ∧ ∀ p ∈ a.addressPools, p.free A = ∅) ∨
    (∃ pre p post x, a.addressPools = pre ++ p :: post ∧ (∀ q ∈ pre, q.free A = ∅) ∧
      reply.2 = some x ∧ IsLeast (p.free A) x ∧ a'.Represents (insert x A))
  release : ∀ x reply a', allocatorReleaseAddress a x = (reply, a') →
    (reply.1 = .ok ↔ x ∈ A) ∧ (reply.1 = .ok → a'.Represents (A \ {x})) ∧
    (reply.1 ≠ .ok → a' = a)
  counters : ∀ p ∈ a.addressPools, p.availableAddresses.toNat = (p.free A).ncard

section Answers

variable (h : a.Represents A)

include h

theorem Represents.answers_available : allocatorIsAddressAvailable a x = true ↔
    a.hasPool x = true ∧ x ∉ A := by
  rw [isAvailable_eq, Bool.and_eq_true, Bool.not_eq_true', ← Bool.not_eq_true, h.isAllocated_iff]

theorem Represents.answers_requestThis {reply : Reply}
    (hr : allocatorRequestThisAddress a x = (reply, a')) :
    (reply.1 = .ok ↔ a.hasPool x = true ∧ x ∉ A) ∧ (reply.1 = .addrInUse ↔ x ∈ A) ∧
    (reply.1 = .cannotCreateLease ↔ a.hasPool x = false) ∧
    (reply.1 = .ok → reply.2 = some x ∧ a'.Represents (insert x A)) ∧
    (reply.1 ≠ .ok → reply.2 = none ∧ a' = a) := by
  rcases requestThis_cases a x with ⟨heq, hpool⟩ | ⟨heq, halloc⟩ | ⟨pre, p, post, b, heq, hg, hpre⟩
  · rw [heq] at hr
    cases hr
    have hx : x ∉ A := fun hx => by simp [h.inside x hx] at hpool
    simp [hpool, hx]
  · rw [heq] at hr
    cases hr
    have hx : x ∈ A := h.isAllocated_iff.mp halloc
    simp [hx, h.inside x hx]
  · rw [heq] at hr
    cases hr
    have hpool : a.hasPool x = true := (hasPool_eq_true a x).mpr ⟨p, by simp [hg.before], hg.belongs⟩
    have hx : x ∉ A := by
      rw [← h.isAllocated_iff, isAllocated_eq, hg.before, allocatedIn_first hpre hg.belongs,
        hg.free]
      simp
    simp [hpool, hx, h.grant hg]

theorem Represents.answers_requestFromPool {p : AddressPool} (hp : p ∈ a.addressPools)
    {reply : Reply} (hr : allocatorRequestAddressFromPool a p.name = (reply, a')) :
    (reply.1 = .poolDepleted ∧ p.free A = ∅ ∧ reply.2 = none ∧ a' = a) ∨
    (reply.1 = .ok ∧ ∃ x, reply.2 = some x ∧ IsLeast (p.free A) x ∧
      a'.Represents (insert x A)) := by
  rcases fromPool_cases a p.name with ⟨-, hno⟩ | ⟨pre, q, post, hsplit, hname, -, hcase⟩
  · exact absurd rfl (hno p hp)
  -- names are distinct, so the pool found is the one asked for
  have hq : q ∈ a.addressPools := by simp [hsplit]
  obtain rfl : q = p := List.inj_on_of_nodup_map h.names hq hp hname
  rcases hcase with ⟨heq, hfull⟩ | ⟨x, b, heq, hg, hl⟩
  · rw [heq] at hr
    cases hr
    exact .inl ⟨rfl, (h.passedOver_iff hq).mp (.inr hfull), rfl, rfl⟩
  · rw [heq] at hr
    cases hr
    exact .inr ⟨rfl, x, rfl, h.isLeast hq hg.belongs hg.free hl, h.grant hg⟩

theorem Represents.answers_requestAny {reply : Reply}
    (hr : allocatorRequestAnyAddress a = (reply, a')) :
    (reply.2 = none ∧ a' = a ∧ ∀ p ∈ a.addressPools, p.free A = ∅) ∨
    (∃ pre p post x, a.addressPools = pre ++ p :: post ∧ (∀ q ∈ pre, q.free A = ∅) ∧
      reply.2 = some x ∧ IsLeast (p.free A) x ∧ a'.Represents (insert x A)) := by
  rcases requestAny_cases a with ⟨pre, p, post, x, b, heq, hg, hl, -, hpre⟩ | ⟨heq, hall⟩
  · rw [heq] at hr
    cases hr
    have hp : p ∈ a.addressPools := by simp [hg.before]
    refine .inr ⟨pre, p, post, x, hg.before, ?_, rfl, h.isLeast hp hg.belongs hg.free hl,
      h.grant hg⟩
    intro q hq
    exact (h.passedOver_iff (by simp [hg.before, hq])).mp (hpre q hq)
  · rw [heq] at hr
    cases hr
    exact .inl ⟨rfl, rfl, fun p hp => (h.passedOver_iff hp).mp (hall p hp)⟩

theorem Represents.answers_release {reply : Reply}
    (hr : allocatorReleaseAddress a x = (reply, a')) :
    (reply.1 = .ok ↔ x ∈ A) ∧ (reply.1 = .ok → a'.Represents (A \ {x})) ∧
    (reply.1 ≠ .ok → a' = a) := by
  rcases release_cases a x with ⟨heq, hpool⟩ | ⟨heq, -, halloc⟩ | ⟨pre, p, post, b, heq, hf⟩
  · rw [heq] at hr
    cases hr
    have hx : x ∉ A := fun hx => by simp [h.inside x hx] at hpool
    simp [hx]
  · rw [heq] at hr
    cases hr
    have hx : x ∉ A := by
      rw [← h.isAllocated_iff, halloc]
      simp
    simp [hx]
  · rw [heq] at hr
    cases hr
    have hx : x ∈ A := ((h.bits p (by simp [hf.before]) x).mp hf.allocated).2
    simp [hx, h.release hf]

theorem Represents.answersBy : a.AnswersBy A where
  available _ := h.answers_available
  requestThis _ _ _ hr := h.answers_requestThis hr
  requestFromPool _ hp _ _ hr := h.answers_requestFromPool hp hr
  requestFromUnknown name hno := by
    rcases fromPool_cases a name with ⟨heq, -⟩ | ⟨pre, q, post, hsplit, hname, -, -⟩
    · exact heq
    · exact absurd hname (hno q (by simp [hsplit]))
  requestAny _ _ hr := h.answers_requestAny hr
  release _ _ _ hr := h.answers_release hr
  counters := h.counters

/-- One call keeps the representation, for the outstanding set its reply amounts to. -/
theorem Represents.perform (op : AllocatorOp) :
    (a.perform op).2.Represents (outstandingAfter A op (a.perform op).1) := by
  cases op with
  | requestAny =>
    rcases requestAny_cases a with ⟨pre, p, post, x, b, heq, hg, -⟩ | ⟨heq, -⟩
    · rw [AddressAllocator.perform, heq]
      exact h.grant hg
    · rw [AddressAllocator.perform, heq]
      exact h
  | requestFromPool name =>
    rcases fromPool_cases a name with ⟨heq, -⟩ | ⟨pre, q, post, -, -, -, ⟨heq, -⟩ | ⟨x, b, heq, hg, -⟩⟩
    · rw [AddressAllocator.perform, heq]
      exact h
    · rw [AddressAllocator.perform, heq]
      exact h
    · rw [AddressAllocator.perform, heq]
      exact h.grant hg
  | requestThis x =>
    rcases requestThis_cases a x with ⟨heq, -⟩ | ⟨heq, -⟩ | ⟨pre, p, post, b, heq, hg, -⟩
    · rw [AddressAllocator.perform, heq]
      exact h
    · rw [AddressAllocator.perform, heq]
      exact h
    · rw [AddressAllocator.perform, heq]
      exact h.grant hg
  | release x =>
    obtain ⟨-, hok, hno⟩ := h.answers_release (Prod.mk.eta (p := a.perform (.release x))).symm
    simp only [outstandingAfter]
    split
    · exact hok ‹_›
    · rw [hno ‹_›]
      exact h

theorem Represents.performAll (ops : List AllocatorOp) :
    (performAll a A ops).1.Represents (performAll a A ops).2 := by
  induction ops generalizing a A with
  | nil => exact h
  | cons op ops ih => exact ih (h.perform op)

end Answers

/-- After every sequence of calls on an allocator with freshly made pools, the allocator answers
as the set of addresses granted and not since released prescribes. -/
theorem allocator_refines_outstanding_set (a : AddressAllocator) (hfresh : a.Fresh)
    (ops : List AllocatorOp) : (performAll a ∅ ops).1.AnswersBy (performAll a ∅ ops).2 :=
  ((represents_of_fresh hfresh).performAll ops).answersBy

/-- Two pools of three and two addresses. -/
def twoPools : AddressAllocator :=
  ⟨[], [addressPoolNew ['a'] 0x0a000001 0x0a000003 0xffffff00,
    addressPoolNew ['b'] 0x0a000101 0x0a000102 0xffffff00].reduceOption⟩

theorem twoPools_fresh : twoPools.Fresh := by
  refine ⟨?_, disjoint_of_increasing (by decide +kernel), by decide +kernel⟩
  intro p hp
  obtain ⟨made, hmade, rfl⟩ := List.mem_filterMap.mp hp
  simp only [List.mem_cons, List.not_mem_nil, or_false] at hmade
  rcases hmade with hp | hp
  · exact ⟨_, _, _, _, hp.symm, by decide⟩
  · exact ⟨_, _, _, _, hp.symm, by decide⟩

theorem twoPools_answers_after_calls : twoPools.Fresh ∧
    (performAll twoPools ∅ [.requestAny, .requestThis 0x0a000102, .release 0x0a000001]).1.AnswersBy
      (performAll twoPools ∅ [.requestAny, .requestThis 0x0a000102, .release 0x0a000001]).2 :=
  ⟨twoPools_fresh, allocator_refines_outstanding_set twoPools twoPools_fresh _⟩

end AddressAllocator

end DHCPServer
