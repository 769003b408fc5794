import DHCPServer.Pool.Allocator

namespace DHCPServer

namespace AddressAllocator

/-- Marking an address of the pool takes effect where the bitmap has its byte. -/
theorem mark_isAllocated_iff {p : AddressPool} {x : UInt32}
    (hb : addressBelongsToPool p x = true) (hf : p.isAllocated x = false) :
    (p.mark x).isAllocated x = true ↔ p.number x < 8 * p.leasesBm.length := by
  have hbit : (p.mark x).isAllocated x =
      Bitmap.bitAt (Bitmap.setBit p.leasesBm (p.number x)) (p.number x) := by
    have hbelongs : addressBelongsToPool (p.mark x) x = true := hb
    rw [AddressPool.isAllocated, hbelongs, Bool.true_and]
    rfl
  have hclear : Bitmap.bitAt p.leasesBm (p.number x) = false := by
    rwa [AddressPool.isAllocated, hb, Bool.true_and] at hf
  rw [hbit]
  by_cases hn : p.number x / 8 < p.leasesBm.length
  · rw [Bitmap.bitAt_setBit hn]
    simp
    omega
  · rw [Bitmap.setBit, List.set_eq_of_length_le (Nat.le_of_not_lt hn), hclear]
    simp
    omega

/-- `p` is the first pool that is not passed over, and `x` its least free address. -/
structure NextFree (a : AddressAllocator) (pre : List AddressPool) (p : AddressPool)
    (post : List AddressPool) (x : UInt32) : Prop where
  pools : a.addressPools = pre ++ p :: post
  passed : ∀ q ∈ pre, passedOver q
  available : p.availableAddresses ≠ 0
  belongs : addressBelongsToPool p x = true
  free : p.isAllocated x = false
  least : ∀ y, addressBelongsToPool p y = true → y < x → p.isAllocated y = true

section NextFree

variable {a : AddressAllocator} {pre post rest : List AddressPool} {p : AddressPool} {x : UInt32}

theorem requestAnyFrom_passed (h : ∀ q ∈ pre, passedOver q) :
    requestAnyFrom (pre ++ rest) =
      ((requestAnyFrom rest).1, pre ++ (requestAnyFrom rest).2) := by
  induction pre with
  | nil => rfl
  | cons q pre ih =>
    have hrest := ih fun r hr => h r (List.mem_cons_of_mem q hr)
    rw [List.cons_append, requestAnyFrom, hrest]
    by_cases hav : q.availableAddresses = 0
    · rw [if_pos hav]
      rfl
    · have hfull := (h q List.mem_cons_self).resolve_left hav
      rw [if_neg hav]
      rcases assign_cases q with ⟨y, -, hb, hf, -⟩ | ⟨heq, -⟩
      · rw [hfull y hb] at hf
        cases hf
      · rw [heq]
        rfl

/-- The least free address is the one that is handed out. -/
theorem assign_least (hb : addressBelongsToPool p x = true) (hf : p.isAllocated x = false)
    (hl : ∀ y, addressBelongsToPool p y = true → y < x → p.isAllocated y = true) :
    allocatorAssignFirstFromPool p = ((.ok, some x), p.mark x) := by
  rcases assign_cases p with ⟨y, heq, hby, hfy, hly⟩ | ⟨-, hfull⟩
  · have hxy : ¬x < y := by
      intro hlt
      rw [hly x hb hlt] at hf
      cases hf
    have hyx : ¬y < x := by
      intro hlt
      rw [hl y hby hlt] at hfy
      cases hfy
    have hsame : y = x := by
      apply UInt32.toNat_inj.mp
      rw [UInt32.lt_iff_toNat_lt] at hxy hyx
      omega
    rw [heq, hsame]
  · rw [hfull x hb] at hf
    cases hf

theorem NextFree.request (h : NextFree a pre p post x) :
    allocatorRequestAnyAddress a = ((.ok, some x), a.setPools (pre ++ p.mark x :: post)) := by
  have hgrant : requestAnyFrom (p :: post) = (some x, p.mark x :: post) := by
    rw [requestAnyFrom, if_neg h.available, assign_least h.belongs h.free h.least]
  rw [allocatorRequestAnyAddress, h.pools, requestAnyFrom_passed h.passed, hgrant]

/-- Whatever comes of a request, it comes of the next free address or there is none. -/
theorem request_next (a : AddressAllocator) :
    (∃ pre p post x, NextFree a pre p post x) ∨
      allocatorRequestAnyAddress a = ((.ok, none), a) := by
  rcases requestAny_cases a with ⟨pre, p, post, x, a', -, hg, hl, hav, hpre⟩ | ⟨heq, -⟩
  · exact .inl ⟨pre, p, post, x, hg.before, hpre, hav, hg.belongs, hg.free, hl⟩
  · exact .inr heq

end NextFree

/-- A pool in which the address was free has it allocated afterwards. -/
def NewlyAllocated (a a' : AddressAllocator) (x : UInt32) : Prop :=
  ∃ (i : Nat) (p p' : AddressPool), a.addressPools[i]? = some p ∧ a'.addressPools[i]? = some p' ∧
    addressBelongsToPool p x = true ∧ p.isAllocated x = false ∧ p'.isAllocated x = true

/-- What the status of `allocator_request_any_address` is expected to say. -/
structure StatusTells (a : AddressAllocator) : Prop where
  ok : (allocatorRequestAnyAddress a).1.1 = .ok ↔
    ∃ x, (allocatorRequestAnyAddress a).1.2 = some x ∧
      NewlyAllocated a (allocatorRequestAnyAddress a).2 x
  depleted : (∀ p ∈ a.addressPools, ∀ y, addressBelongsToPool p y = true →
      p.isAllocated y = true) →
    (allocatorRequestAnyAddress a).1.1 ≠ .ok ∧
    (a.addressPools ≠ [] → (allocatorRequestAnyAddress a).1.1 = .poolDepleted) ∧
    (allocatorRequestAnyAddress a).1.2 = none ∧ (allocatorRequestAnyAddress a).2 = a

/-- The pool at whose place the mark is made is the only one that changes. -/
theorem newlyAllocated_iff {a : AddressAllocator} {pre post : List AddressPool} {p : AddressPool}
    {x : UInt32} (h : NextFree a pre p post x) :
    NewlyAllocated a (a.setPools (pre ++ p.mark x :: post)) x ↔
      p.number x < 8 * p.leasesBm.length := by
  rw [← mark_isAllocated_iff h.belongs h.free]
  constructor
  · rintro ⟨i, q, q', hq, hq', -, hfree, hset⟩
    change (pre ++ p.mark x :: post)[i]? = some q' at hq'
    rw [h.pools] at hq
    rcases Nat.lt_trichotomy i pre.length with hlt | rfl | hgt
    · rw [List.getElem?_append_left hlt] at hq hq'
      rw [hq] at hq'
      cases hq'
      rw [hset] at hfree
      cases hfree
    · simp at hq hq'
      rwa [← hq'] at hset
    · obtain ⟨k, hk⟩ : ∃ k, i - pre.length = k + 1 := ⟨i - pre.length - 1, by omega⟩
      rw [List.getElem?_append_right hgt.le, hk, List.getElem?_cons_succ] at hq hq'
      rw [hq] at hq'
      cases hq'
      rw [hset] at hfree
      cases hfree
  · intro hset
    refine ⟨pre.length, p, p.mark x, ?_, ?_, h.belongs, h.free, hset⟩
    · rw [h.pools]
      simp
    · change (pre ++ p.mark x :: post)[pre.length]? = some (p.mark x)
      simp

/-- The status tells what has happened exactly when an address is handed out: a pool that is not
counted as full has a free address, and the bit of the first one exists. -/
theorem any_address_status_iff (a : AddressAllocator) :
    StatusTells a ↔ ∃ pre p post x, NextFree a pre p post x ∧
      p.number x < 8 * p.leasesBm.length := by
  rcases request_next a with ⟨pre, p, post, x, hnext⟩ | hnone
  · constructor
    · intro h
      have hok : (allocatorRequestAnyAddress a).1.1 = .ok := by rw [hnext.request]
      obtain ⟨y, hy, hnew⟩ := h.ok.mp hok
      rw [hnext.request] at hy hnew
      obtain rfl := Option.some.inj hy
      exact ⟨pre, p, post, x, hnext, (newlyAllocated_iff hnext).mp hnew⟩
    · intro ⟨pre', p', post', x', hnext', hbit⟩
      refine ⟨?_, ?_⟩
      · rw [hnext'.request]
        exact iff_of_true rfl ⟨x', rfl, (newlyAllocated_iff hnext').mpr hbit⟩
      · intro hfull
        have hmem : p ∈ a.addressPools := by simp [hnext.pools]
        have hset := hfull p hmem x hnext.belongs
        rw [hnext.free] at hset
        cases hset
  · constructor
    · intro h
      have hok : (allocatorRequestAnyAddress a).1.1 = .ok := by rw [hnone]
      obtain ⟨y, hy, -⟩ := h.ok.mp hok
      rw [hnone] at hy
      cases hy
    · rintro ⟨pre, p, post, x, hnext, -⟩
      rw [hnext.request] at hnone
      simp at hnone

/-- The only pool has two addresses, and both are taken. -/
def takenPool : Option AddressAllocator :=
  (addressPoolNew [] 0x0a000001 0x0a000002 0xffffff00).map fun p =>
    ⟨[], [(p.mark 0x0a000001).mark 0x0a000002]⟩

theorem depleted_request_ok : ¬∀ a, StatusTells a := by
  intro h
  have htaken : takenPool.any (fun a => (allocatorRequestAnyAddress a).1 == (.ok, none)) = true := by
    decide +kernel
  obtain ⟨a, -, ha⟩ := (Option.any_eq_true _ _).mp htaken
  have hreply : (allocatorRequestAnyAddress a).1 = (.ok, none) := by simpa using ha
  obtain ⟨x, hx, -⟩ := (h a).ok.mp (by rw [hreply])
  rw [hreply] at hx
  cases hx

end AddressAllocator

end DHCPServer
