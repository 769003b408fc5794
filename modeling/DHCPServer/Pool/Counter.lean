import DHCPServer.Pool.Refinement

namespace DHCPServer

namespace AddressPool

/-- The addresses of the pool whose bit is set. -/
def allocated (p : AddressPool) : Set UInt32 := {x | p.isAllocated x = true}

/-- The addresses of the pool that are not allocated. -/
def unallocated (p : AddressPool) : Set UInt32 := p.free p.allocated

/-- The counter of free addresses is right. In a pool without a bit for every address it is not. -/
def Counts (p : AddressPool) : Prop :=
  p.Covered → p.availableAddresses.toNat = p.unallocated.ncard

/-- The number of addresses from the first to the last that are not allocated. -/
def freeCount (p : AddressPool) : Nat := p.addresses.countP fun x => !p.isAllocated x

variable {p : AddressPool} {x : UInt32}

theorem ncard_unallocated (p : AddressPool) : p.unallocated.ncard = p.freeCount := by
  have hset : p.unallocated =
      ((p.addresses.filter fun x => !p.isAllocated x).toFinset : Set UInt32) := by
    ext x
    simp [unallocated, free, allocated, mem_addresses]
  rw [hset, Set.ncard_coe_finset, List.toFinset_card_of_nodup (p.addresses_nodup.filter _),
    freeCount, List.countP_eq_length_filter]

theorem allocated_mark (hc : p.Covered) (hb : addressBelongsToPool p x = true) :
    (p.mark x).allocated = insert x p.allocated := by
  ext y
  rw [Set.mem_insert_iff]
  by_cases hy : y = x
  · subst hy
    simp [allocated, mark_isAllocated_self hc hb]
  · simp [allocated, mark_isAllocated_ne hb hy, hy]

theorem allocated_unmark (hx : p.isAllocated x = true) :
    (p.unmark x).allocated = p.allocated \ {x} := by
  ext y
  simp [allocated, unmark_isAllocated hx]

theorem Counts.mark (h : p.Counts) (hb : addressBelongsToPool p x = true)
    (hx : p.isAllocated x = false) : (p.mark x).Counts := by
  intro hc
  have hc' : p.Covered := (covered_of_shape p.mark_shape).mp hc
  have hset : (p.mark x).unallocated = p.free (insert x p.allocated) := by
    rw [unallocated, allocated_mark hc' hb]
    rfl
  rw [hset]
  exact mark_counter hb (by simp [allocated, hx]) (h hc')

theorem Counts.unmark (h : p.Counts) (hx : p.isAllocated x = true) : (p.unmark x).Counts := by
  intro hc
  have hset : (p.unmark x).unallocated = p.free (p.allocated \ {x}) := by
    rw [unallocated, allocated_unmark hx]
    rfl
  rw [hset]
  exact unmark_counter (belongs_of_isAllocated hx) hx
    (h ((covered_of_shape p.unmark_shape).mp hc))

theorem Counts.set (h : p.Counts) (x : UInt32) :
    (p.setAllocation x).2.Counts := by
  rw [set_eq]
  split
  · rename_i hx
    rw [Bool.and_eq_true, Bool.not_eq_true'] at hx
    exact h.mark hx.1 hx.2
  · exact h

/-- A pool without any allocated address counts right when its counter is at its size. -/
theorem counts_of_free (hfree : ∀ x, p.isAllocated x = false)
    (hcount : p.availableAddresses.toNat = p.endAddress.toNat - p.startAddress.toNat + 1) :
    p.Counts := by
  intro _
  have hnone : p.allocated = ∅ := by
    ext x
    simp [allocated, hfree x]
  rw [hcount, unallocated, hnone, ncard_free_empty]

end AddressPool

namespace AddressAllocator

/-- Every pool counts its free addresses right. -/
def Counts (a : AddressAllocator) : Prop := ∀ p ∈ a.addressPools, p.Counts

variable {a a' : AddressAllocator} {pre post : List AddressPool} {p p' : AddressPool} {x : UInt32}

theorem Counts.replace (h : a.Counts) (hsplit : a.addressPools = pre ++ p :: post)
    (hp : p.Counts → p'.Counts) : (a.setPools (pre ++ p' :: post)).Counts := by
  intro q hq
  have hold : ∀ q, q ∈ pre ∨ q = p ∨ q ∈ post → q.Counts := by
    intro q hq
    apply h
    simpa [hsplit] using hq
  have hq' : q ∈ pre ∨ q = p' ∨ q ∈ post := by simpa [setPools] using hq
  rcases hq' with hq | rfl | hq
  · exact hold q (.inl hq)
  · exact hp (hold p (.inr (.inl rfl)))
  · exact hold q (.inr (.inr hq))

theorem Grants.counts (hg : Grants a a' pre p post x) (h : a.Counts) : a'.Counts := by
  rw [hg.after]
  exact h.replace hg.before fun hp => hp.mark hg.belongs hg.free

theorem Counts.release (h : a.Counts) (x : UInt32) : (allocatorReleaseAddress a x).2.Counts := by
  rcases release_cases a x with ⟨heq, -⟩ | ⟨heq, -, -⟩ | ⟨pre, p, post, a', heq, hf⟩
  · rwa [heq]
  · rwa [heq]
  · rw [heq]
    show a'.Counts
    rw [hf.after]
    exact h.replace hf.before fun hp => hp.unmark hf.allocated

theorem Counts.requestThis (h : a.Counts) (x : UInt32) :
    (allocatorRequestThisAddress a x).2.Counts := by
  rcases requestThis_cases a x with ⟨heq, -⟩ | ⟨heq, -⟩ | ⟨pre, p, post, a', heq, hg, -⟩
  · rwa [heq]
  · rwa [heq]
  · rw [heq]
    exact hg.counts h

end AddressAllocator

end DHCPServer
