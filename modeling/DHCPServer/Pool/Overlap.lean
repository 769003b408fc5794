import DHCPServer.Pool.Refinement

namespace DHCPServer

/-- The pool as `address_pool_new` returns it. -/
def AddressPool.Made (p : AddressPool) : Prop :=
  ∃ name start «end» mask, addressPoolNew name start «end» mask = some p

namespace AddressAllocator

/-- `address_allocator_new` followed by calls of `allocator_add_pool`. -/
def built (pools : List AddressPool) : AddressAllocator :=
  pools.foldl (fun a p => (allocatorAddPool a p).2) addressAllocatorNew

/-- Whatever is called on the allocator, no request returns an address that is outstanding. -/
def NeverRegrants (a : AddressAllocator) (A : Set UInt32) : Prop :=
  ∀ ops op x, ((performAll a A ops).1.perform op).1.2 = some x → x ∉ (performAll a A ops).2

section Built

variable {pools : List AddressPool}

theorem built_rule {P : AddressAllocator → Prop} (h₀ : P addressAllocatorNew)
    (hadd : ∀ a, ∀ p ∈ pools, P a → P (allocatorAddPool a p).2) : P (built pools) := by
  have key : ∀ (l : List AddressPool) (a : AddressAllocator), (∀ p ∈ l, p ∈ pools) → P a →
      P (l.foldl (fun a p => (allocatorAddPool a p).2) a) := by
    intro l
    induction l with
    | nil => exact fun _ _ ha => ha
    | cons p l ih =>
      intro a hl ha
      have hp : P (allocatorAddPool a p).2 := hadd a p (hl p (by simp)) ha
      exact ih _ (fun q hq => hl q (by simp [hq])) hp
  exact key pools _ (fun _ hp => hp) h₀

theorem built_names : ((built pools).addressPools.map AddressPool.name).Nodup :=
  built_rule (P := fun a => (a.addressPools.map AddressPool.name).Nodup) List.nodup_nil
    fun _ _ _ ha => addPool_names ha

theorem built_mem {p : AddressPool} (hp : p ∈ (built pools).addressPools) : p ∈ pools := by
  refine built_rule (P := fun a => ∀ q ∈ a.addressPools, q ∈ pools) ?_ ?_ p hp
  · intro q hq
    cases hq
  · intro a p hp ha q hq
    rcases addPool_pools a p with heq | ⟨-, heq⟩
    · exact ha q (heq ▸ hq)
    · rw [heq, List.mem_append, List.mem_singleton] at hq
      rcases hq with hq | rfl
      · exact ha q hq
      · exact hp

end Built

section Enough

variable {a : AddressAllocator} {A : Set UInt32} {x : UInt32}

/-- A call that returns an address marks it in one pool where it was free. -/
theorem perform_grants {op : AllocatorOp} (hx : (a.perform op).1.2 = some x) :
    ∃ pre p post, Grants a (a.perform op).2 pre p post x := by
  cases op with
  | requestAny =>
    rcases requestAny_cases a with ⟨pre, p, post, y, b, heq, hg, -⟩ | ⟨heq, -⟩
    · rw [AddressAllocator.perform, heq] at hx ⊢
      cases hx
      exact ⟨pre, p, post, hg⟩
    · rw [AddressAllocator.perform, heq] at hx
      cases hx
  | requestFromPool name =>
    rcases fromPool_cases a name with
      ⟨heq, -⟩ | ⟨pre, q, post, -, -, -, ⟨heq, -⟩ | ⟨y, b, heq, hg, -⟩⟩
    · rw [AddressAllocator.perform, heq] at hx
      cases hx
    · rw [AddressAllocator.perform, heq] at hx
      cases hx
    · rw [AddressAllocator.perform, heq] at hx ⊢
      cases hx
      exact ⟨pre, q, post, hg⟩
  | requestThis y =>
    rcases requestThis_cases a y with ⟨heq, -⟩ | ⟨heq, -⟩ | ⟨pre, p, post, b, heq, hg, -⟩
    · rw [AddressAllocator.perform, heq] at hx
      cases hx
    · rw [AddressAllocator.perform, heq] at hx
      cases hx
    · rw [AddressAllocator.perform, heq] at hx ⊢
      cases hx
      exact ⟨pre, p, post, hg⟩
  | release y =>
    rcases release_cases a y with ⟨heq, -⟩ | ⟨heq, -⟩ | ⟨pre, p, post, b, heq, -⟩
    · rw [AddressAllocator.perform, heq] at hx
      cases hx
    · rw [AddressAllocator.perform, heq] at hx
      cases hx
    · rw [AddressAllocator.perform, heq] at hx
      cases hx

/-- Where the bitmaps stand for the outstanding set, what a request returns is not in it. -/
theorem Represents.neverRegrants (h : a.Represents A) : NeverRegrants a A := by
  intro ops op x hx hmem
  have hrep := h.performAll ops
  obtain ⟨pre, p, post, hg⟩ := perform_grants hx
  have hp : p ∈ (DHCPServer.performAll a A ops).1.addressPools := by simp [hg.before]
  have halloc := (hrep.bits p hp x).mpr ⟨hg.belongs, hmem⟩
  rw [hg.free] at halloc
  cases halloc

end Enough

section Needed

variable {a : AddressAllocator} {A : Set UInt32} {x : UInt32} {q : AddressPool}

theorem NeverRegrants.perform (h : NeverRegrants a A) (op : AllocatorOp) :
    NeverRegrants (a.perform op).2 (outstandingAfter A op (a.perform op).1) :=
  fun ops op' x hx => h (op :: ops) op' x hx

theorem names_of_shape {a' : AddressAllocator} (hs : a'.shape = a.shape)
    (hn : (a.addressPools.map AddressPool.name).Nodup) :
    (a'.addressPools.map AddressPool.name).Nodup := by
  have hnames : a'.poolNames = a.poolNames := poolNames_of_shape hs
  unfold poolNames at hnames
  rwa [hnames]

/-- A request by name goes to the pool of that name and takes its least free address. -/
theorem requestFromPool_free (hn : (a.addressPools.map AddressPool.name).Nodup)
    (hq : q ∈ a.addressPools) (hx : addressBelongsToPool q x = true)
    (hfree : q.isAllocated x = false) :
    ∃ z, allocatorRequestAddressFromPool a q.name =
        ((.ok, some z), (allocatorRequestAddressFromPool a q.name).2) ∧
      (∃ pre post, Grants a (allocatorRequestAddressFromPool a q.name).2 pre q post z) ∧
      z.toNat ≤ x.toNat := by
  rcases fromPool_cases a q.name with ⟨-, hno⟩ | ⟨pre, p, post, hsplit, hname, -, hcase⟩
  · exact absurd rfl (hno q hq)
  have hp : p ∈ a.addressPools := by simp [hsplit]
  obtain rfl : p = q := List.inj_on_of_nodup_map hn hp hq hname
  rcases hcase with ⟨-, hfull⟩ | ⟨z, b, heq, hg, hl⟩
  · rw [hfull x hx] at hfree
    cases hfree
  · have hle : z.toNat ≤ x.toNat := by
      by_contra hlt
      have hlt' : x < z := UInt32.lt_iff_toNat_lt.mpr (by omega)
      rw [hl x hx hlt'] at hfree
      cases hfree
    rw [heq]
    exact ⟨z, rfl, ⟨pre, post, hg⟩, hle⟩

/-- The free addresses of a pool below one of its addresses. -/
def freeBelow (q : AddressPool) (x : UInt32) : Nat :=
  q.addresses.countP fun y => !q.isAllocated y && decide (y < x)

theorem freeBelow_mark {z : UInt32} (hc : q.Covered) (hz : addressBelongsToPool q z = true)
    (hfree : q.isAllocated z = false) (hlt : z < x) : freeBelow (q.mark z) x < freeBelow q x := by
  obtain ⟨pre, post, hsplit⟩ := List.append_of_mem (AddressPool.mem_addresses.mpr hz)
  have haddr : (q.mark z).addresses = pre ++ z :: post := hsplit
  have hmono : ∀ y, (!(q.mark z).isAllocated y && decide (y < x)) = true →
      (!q.isAllocated y && decide (y < x)) = true := by
    intro y hy
    cases halloc : q.isAllocated y with
    | false => simpa using (Bool.and_eq_true_iff.mp hy).2
    | true =>
      rw [AddressPool.mark_isAllocated_of_isAllocated halloc] at hy
      cases hy
  have hpre := List.countP_mono_left (l := pre) fun y _ => hmono y
  have hpost := List.countP_mono_left (l := post) fun y _ => hmono y
  have hself : (q.mark z).isAllocated z = true := AddressPool.mark_isAllocated_self hc hz
  unfold freeBelow
  rw [haddr, hsplit, List.countP_append, List.countP_append, List.countP_cons, List.countP_cons]
  simp only [hself, hfree, hlt, Bool.not_true, Bool.false_and, Bool.not_false, Bool.true_and,
    decide_true, if_true, Bool.false_eq_true, if_false]
  omega

/-- An outstanding address that is free in some pool is returned again, once the smaller free
addresses of that pool are used up. -/
theorem regrants_of_free (hn : (a.addressPools.map AddressPool.name).Nodup)
    (hq : q ∈ a.addressPools) (hc : q.Covered) (hx : addressBelongsToPool q x = true)
    (hfree : q.isAllocated x = false) (hA : x ∈ A) : ¬NeverRegrants a A := by
  induction hk : freeBelow q x using Nat.strong_induction_on generalizing a A q with
  | _ k ih =>
    intro h
    obtain ⟨z, heq, ⟨pre, post, hg⟩, hz⟩ := requestFromPool_free hn hq hx hfree
    have hreply : (a.perform (.requestFromPool q.name)).1 = (.ok, some z) := congrArg Prod.fst heq
    by_cases hzx : z = x
    · subst hzx
      exact h [] (.requestFromPool q.name) z (congrArg Prod.snd hreply) hA
    · have hlt : z < x := by
        have hne : z.toNat ≠ x.toNat := fun he => hzx (UInt32.toNat_inj.mp he)
        exact UInt32.lt_iff_toNat_lt.mpr (by omega)
      have hnext := h.perform (.requestFromPool q.name)
      rw [hreply] at hnext
      have hn' : ((a.perform (.requestFromPool q.name)).2.addressPools.map
          AddressPool.name).Nodup := names_of_shape hg.shape hn
      have hq' : q.mark z ∈ (a.perform (.requestFromPool q.name)).2.addressPools := by
        rw [AddressAllocator.perform, hg.after]
        simp [setPools]
      have hdec : freeBelow (q.mark z) x < k := hk ▸ freeBelow_mark hc hg.belongs hg.free hlt
      refine ih _ hdec hn' hq' ((AddressPool.covered_of_shape q.mark_shape).mpr hc) ?_ ?_ ?_ rfl
        hnext
      · rwa [AddressPool.belongs_of_shape q.mark_shape]
      · rwa [AddressPool.mark_isAllocated_ne hg.belongs (Ne.symm hzx)]
      · exact Set.mem_insert_of_mem z hA

theorem NeverRegrants.disjoint (hn : (a.addressPools.map AddressPool.name).Nodup)
    (hc : a.Covered) (hfree : ∀ p ∈ a.addressPools, ∀ x, p.isAllocated x = false)
    (h : NeverRegrants a A) : a.Disjoint := by
  rw [Disjoint, List.pairwise_iff_forall_sublist]
  intro p q hpq x hpx
  by_contra hqx
  have hqx : addressBelongsToPool q x = true := by simpa using hqx
  have hq : q ∈ a.addressPools := hpq.subset (by simp)
  -- the address is taken from the first pool that contains it, which is not `q`
  rcases requestThis_cases a x with ⟨-, hpool⟩ | ⟨-, halloc⟩ | ⟨pre, r, post, b, heq, hg, hpre⟩
  · rw [hasPool_eq_false] at hpool
    rw [hpool q hq] at hqx
    cases hqx
  · obtain ⟨r, hr, hrx⟩ := (Option.any_eq_true _ _).mp halloc
    rw [hfree r (List.mem_of_find?_eq_some hr)] at hrx
    cases hrx
  · have hpost : q ∈ post := by
      rw [hg.before] at hpq
      refine mem_of_sublist_pair hpq fun hp => ?_
      rw [hpre p hp] at hpx
      cases hpx
    have hnext := h.perform (.requestThis x)
    rw [AddressAllocator.perform, heq] at hnext
    have hn' : (b.addressPools.map AddressPool.name).Nodup := names_of_shape hg.shape hn
    have hqb : q ∈ b.addressPools := by
      rw [hg.after]
      simp [setPools, hpost]
    exact regrants_of_free hn' hqb (hc q hq) hqx (hfree q hq x) (Set.mem_insert x A) hnext

/-- A bitmap of no bytes keeps no mark, so that the pool returns its first address again. -/
theorem NeverRegrants.covered (hn : (a.addressPools.map AddressPool.name).Nodup)
    (h : NeverRegrants a A) : a.Covered := by
  intro q hq
  by_contra hc
  have hempty : q.leasesBm = [] := by
    rw [AddressPool.covered_iff] at hc
    have ho := UInt32.lt_iff_toNat_lt.mp q.ordered
    have hb := UInt32.lt_iff_toNat_lt.mp q.bounded
    have hlen := q.bitmapSize
    rw [poolRange, UInt32.toNat_div, UInt32.toNat_add,
      UInt32.toNat_sub_of_le _ _ (UInt32.le_iff_toNat_le.mpr ho.le)] at hlen
    simp only [UInt32.reduceToNat] at hb hlen
    exact List.length_eq_zero_iff.mp (by omega)
  have hfree : ∀ (p : AddressPool) (x : UInt32), p.leasesBm = [] → p.isAllocated x = false := by
    intro p x hp
    rw [AddressPool.isAllocated, hp, Bitmap.bitAt]
    simp
  have hstart : addressBelongsToPool q q.startAddress = true := by
    have ho := UInt32.lt_iff_toNat_lt.mp q.ordered
    exact AddressPool.belongs_iff.mpr ⟨le_rfl, ho.le⟩
  have hleast : ∀ z, addressBelongsToPool q z = true → z.toNat ≤ q.startAddress.toNat →
      z = q.startAddress := by
    intro z hz hle
    exact UInt32.toNat_inj.mp (Nat.le_antisymm hle (AddressPool.belongs_iff.mp hz).1)
  obtain ⟨z, heq, ⟨pre, post, hg⟩, hz⟩ := requestFromPool_free hn hq hstart (hfree q _ hempty)
  obtain rfl := hleast z hg.belongs hz
  have hreply : (a.perform (.requestFromPool q.name)).1 = (.ok, some q.startAddress) :=
    congrArg Prod.fst heq
  have hmark : (q.mark q.startAddress).leasesBm = [] := by
    have hset : (q.mark q.startAddress).leasesBm = Bitmap.setBit q.leasesBm _ := rfl
    rw [hset, hempty]
    rfl
  -- the second request finds the pool as the first one found it
  have hn' : ((a.perform (.requestFromPool q.name)).2.addressPools.map AddressPool.name).Nodup :=
    names_of_shape hg.shape hn
  have hq' : q.mark q.startAddress ∈ (a.perform (.requestFromPool q.name)).2.addressPools := by
    rw [AddressAllocator.perform, hg.after]
    simp [setPools]
  have hstart' : addressBelongsToPool (q.mark q.startAddress) q.startAddress = true := by
    rwa [AddressPool.belongs_of_shape q.mark_shape]
  obtain ⟨y, heq', ⟨pre', post', hg'⟩, hy⟩ :=
    requestFromPool_free hn' hq' hstart' (hfree _ _ hmark)
  have hbelongs : addressBelongsToPool q y = true :=
    (AddressPool.belongs_of_shape q.mark_shape y).symm.trans hg'.belongs
  obtain rfl := hleast y hbelongs hy
  have hreply' := congrArg (fun r => r.1.2) heq'
  refine h [.requestFromPool q.name] (.requestFromPool q.name) q.startAddress hreply' ?_
  rw [performAll, performAll, hreply]
  exact Set.mem_insert _ _

end Needed

/-- No address is outstanding twice exactly when the ranges of the pools do not overlap and no
pool is so large that the size of its bitmap wraps. -/
theorem never_outstanding_twice_iff (pools : List AddressPool) (hmade : ∀ p ∈ pools, p.Made) :
    NeverRegrants (built pools) ∅ ↔ (built pools).Disjoint ∧
      ∀ p ∈ (built pools).addressPools,
        p.endAddress.toNat - p.startAddress.toNat + 8 < 2 ^ 32 := by
  have hn : ((built pools).addressPools.map AddressPool.name).Nodup := built_names
  have hcov : (built pools).Covered ↔ ∀ p ∈ (built pools).addressPools,
      p.endAddress.toNat - p.startAddress.toNat + 8 < 2 ^ 32 :=
    forall₂_congr fun p _ => AddressPool.covered_iff
  rw [← hcov]
  constructor
  · intro h
    have hc := h.covered hn
    refine ⟨h.disjoint hn hc ?_, hc⟩
    intro p hp x
    obtain ⟨name, start, «end», mask, hnew⟩ := hmade p (built_mem hp)
    obtain ⟨-, hbm, -⟩ := AddressPool.addressPoolNew_eq_some hnew
    rw [AddressPool.isAllocated, hbm, Bitmap.bitAt_replicate_zero, Bool.and_false]
  · intro h
    obtain ⟨hd, hc⟩ := h
    refine (represents_of_fresh ⟨?_, hd, hn⟩).neverRegrants
    intro p hp
    obtain ⟨name, start, «end», mask, hnew⟩ := hmade p (built_mem hp)
    refine ⟨name, start, «end», mask, hnew, ?_⟩
    obtain ⟨hs, -, -⟩ := AddressPool.addressPoolNew_eq_some hnew
    simp only [AddressPool.shape, Prod.mk.injEq] at hs
    obtain ⟨-, rfl, rfl, -, -⟩ := hs
    exact AddressPool.covered_iff.mp (hc p hp)

/-- Two pools of different names that share 10.0.0.2 and 10.0.0.3. -/
def overlappingPools : List AddressPool :=
  [addressPoolNew ['a'] 0x0a000001 0x0a000003 0xffffff00,
    addressPoolNew ['b'] 0x0a000002 0x0a000004 0xffffff00].reduceOption

theorem overlappingPools_made : ∀ p ∈ overlappingPools, p.Made := by
  intro p hp
  obtain ⟨made, hmade, rfl⟩ := List.mem_filterMap.mp hp
  simp only [List.mem_cons, List.not_mem_nil, or_false] at hmade
  rcases hmade with hp | hp
  · exact ⟨_, _, _, _, hp.symm⟩
  · exact ⟨_, _, _, _, hp.symm⟩

theorem overlappingPools_twice_iff : (∀ p ∈ overlappingPools, p.Made) ∧
    (NeverRegrants (built overlappingPools) ∅ ↔ (built overlappingPools).Disjoint ∧
      ∀ p ∈ (built overlappingPools).addressPools,
        p.endAddress.toNat - p.startAddress.toNat + 8 < 2 ^ 32) :=
  ⟨overlappingPools_made, never_outstanding_twice_iff _ overlappingPools_made⟩

/-- 10.0.0.2 is returned to a request for this address and then to one for the pool `b`. -/
theorem overlappingPools_outstanding_twice :
    ¬∀ pools : List AddressPool, (∀ p ∈ pools, p.Made) → NeverRegrants (built pools) ∅ := by
  intro h
  have hsecond : ((((built overlappingPools).perform (.requestThis 0x0a000002)).2.perform
      (.requestFromPool ['b'])).1).2 = some 0x0a000002 := by decide +kernel
  have hfirst : ((built overlappingPools).perform (.requestThis 0x0a000002)).1 =
      (.ok, some 0x0a000002) := by decide +kernel
  refine h overlappingPools overlappingPools_made [.requestThis 0x0a000002]
    (.requestFromPool ['b']) _ hsecond ?_
  rw [performAll, performAll, hfirst]
  exact Set.mem_insert _ _

end AddressAllocator

end DHCPServer
