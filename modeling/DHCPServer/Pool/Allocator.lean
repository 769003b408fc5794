import DHCPServer.Framework.FirstMatch
import DHCPServer.Pool.AddressPool

namespace DHCPServer

/-- `enum allocator_status` -/
inductive AllocatorStatus
  | ok
  | error
  | addrReserved
  | addrInUse
  | addrNotInUse
  | poolDuplicite
  | optionDuplicite
  | optionInvalid
  | poolDepleted
  | cannotCreateLease
  deriving DecidableEq

/-- `address_allocator_t` -/
structure AddressAllocator where
  defaultOptions : List DhcpOption
  addressPools : List AddressPool
  deriving DecidableEq

def addressAllocatorNew : AddressAllocator := ⟨[], []⟩

namespace AddressAllocator

def setPools (a : AddressAllocator) (pools : List AddressPool) : AddressAllocator :=
  { a with addressPools := pools }

def setOptions (a : AddressAllocator) (options : List DhcpOption) : AddressAllocator :=
  { a with defaultOptions := options }

end AddressAllocator

def allocatorGetPoolByAddress (a : AddressAllocator) (addr : UInt32) : Option AddressPool :=
  a.addressPools.find? (addressBelongsToPool · addr)

def allocatorGetPoolByName (a : AddressAllocator) (name : CString) : Option AddressPool :=
  a.addressPools.find? (·.name == name)

def allocatorAddPool (a : AddressAllocator) (pool : AddressPool) :
    AllocatorStatus × AddressAllocator :=
  match allocatorGetPoolByName a pool.name with
  | some _ => (.poolDuplicite, a)
  | none => (.ok, a.setPools (a.addressPools ++ [pool]))

/-- A status and what was written to `*addr_buf`, if anything. -/
abbrev Reply := AllocatorStatus × Option UInt32

def allocatorAssignFirstFromPool (pool : AddressPool) : Reply × AddressPool :=
  match pool.addresses.find? fun a => pool.getAllocation a == 0 with
  | some a => ((.ok, some a), (pool.setAllocation a).2)
  | none => ((.poolDepleted, none), pool)

/-- The loop of `allocator_request_any_address` over the pools from some node on. -/
def requestAnyFrom : List AddressPool → Option UInt32 × List AddressPool
  | [] => (none, [])
  | pool :: rest =>
    if pool.availableAddresses = 0 then
      ((requestAnyFrom rest).1, pool :: (requestAnyFrom rest).2)
    else
      match allocatorAssignFirstFromPool pool with
      | ((.ok, addr), pool') => (addr, pool' :: rest)
      | (_, pool') => ((requestAnyFrom rest).1, pool' :: (requestAnyFrom rest).2)

/-- `allocator_request_any_address`: whatever the loop did, the status is overwritten with
`ALLOCATOR_OK` behind it. -/
def allocatorRequestAnyAddress (a : AddressAllocator) : Reply × AddressAllocator :=
  let (addr, pools) := requestAnyFrom a.addressPools
  ((.ok, addr), a.setPools pools)

/-- Work on the first pool that satisfies `q`, or the reply `missing` if there is none. -/
def onPool (a : AddressAllocator) (q : AddressPool → Bool) (missing : Reply)
    (f : AddressPool → Reply × AddressPool) : Reply × AddressAllocator :=
  match onFirst q f a.addressPools with
  | none => (missing, a)
  | some (reply, pools) => (reply, a.setPools pools)

def allocatorRequestAddressFromPool (a : AddressAllocator) (poolName : CString) :
    Reply × AddressAllocator :=
  onPool a (·.name == poolName) (.error, none) allocatorAssignFirstFromPool

def requestFromFound (x : UInt32) (p : AddressPool) : Reply × AddressPool :=
  if p.getAllocation x = 1 then ((.addrInUse, none), p)
  else
    let (rv, p') := p.setAllocation x
    if rv ≠ 0 then ((.error, none), p') else ((.ok, some x), p')

def allocatorRequestThisAddress (a : AddressAllocator) (requestedAddres : UInt32) :
    Reply × AddressAllocator :=
  onPool a (addressBelongsToPool · requestedAddres) (.cannotCreateLease, none)
    (requestFromFound requestedAddres)

def releaseFromFound (x : UInt32) (p : AddressPool) : Reply × AddressPool :=
  if p.getAllocation x = 0 then ((.addrNotInUse, none), p)
  else
    let (rv, p') := p.clearAllocation x
    if rv ≠ 0 then ((.error, none), p') else ((.ok, none), p')

def allocatorReleaseAddress (a : AddressAllocator) (address : UInt32) :
    Reply × AddressAllocator :=
  onPool a (addressBelongsToPool · address) (.error, none) (releaseFromFound address)

def allocatorAddDhcpOption (a : AddressAllocator) (option : DhcpOption) :
    AllocatorStatus × AddressAllocator :=
  match dhcpOptionRetrieve a.defaultOptions option.tag with
  | some _ => (.optionDuplicite, a)
  | none => (.ok, a.setOptions (a.defaultOptions ++ [option]))

def allocatorIsAddressAvailable (a : AddressAllocator) (address : UInt32) : Bool :=
  match allocatorGetPoolByAddress a address with
  | none => false
  | some p => p.getAllocation address == 0

namespace AddressAllocator

/-- The options and the shapes of the pools, which no request or release changes. -/
def shape (a : AddressAllocator) :
    List DhcpOption × List (CString × UInt32 × UInt32 × UInt32 × List DhcpOption) :=
  (a.defaultOptions, a.addressPools.map AddressPool.shape)

/-- Some pool contains the address. -/
def hasPool (a : AddressAllocator) (x : UInt32) : Bool :=
  (allocatorGetPoolByAddress a x).isSome

/-- The address is allocated in the first pool that contains it. -/
def isAllocated (a : AddressAllocator) (x : UInt32) : Bool :=
  (allocatorGetPoolByAddress a x).any (·.isAllocated x)

/-- Pools with pairwise disjoint ranges. -/
def Disjoint (a : AddressAllocator) : Prop :=
  a.addressPools.Pairwise fun p q =>
    ∀ x, addressBelongsToPool p x = true → addressBelongsToPool q x = false

/-- Every bitmap has a bit for every address of its pool. -/
def Covered (a : AddressAllocator) : Prop := ∀ p ∈ a.addressPools, p.Covered

/-- Pools with disjoint ranges, distinct names and whole bitmaps. -/
structure WellFormed (a : AddressAllocator) : Prop where
  disjoint : a.Disjoint
  covered : a.Covered
  names : (a.addressPools.map AddressPool.name).Nodup

/-- `a'` is `a` with one free address of one pool marked. -/
structure Grants (a a' : AddressAllocator) (pre : List AddressPool) (p : AddressPool)
    (post : List AddressPool) (x : UInt32) : Prop where
  before : a.addressPools = pre ++ p :: post
  belongs : addressBelongsToPool p x = true
  free : p.isAllocated x = false
  after : a' = a.setPools (pre ++ p.mark x :: post)

/-- `a'` is `a` with one allocated address unmarked, in the first pool that contains it. -/
structure Frees (a a' : AddressAllocator) (pre : List AddressPool) (p : AddressPool)
    (post : List AddressPool) (x : UInt32) : Prop where
  before : a.addressPools = pre ++ p :: post
  first : ∀ q ∈ pre, addressBelongsToPool q x = false
  allocated : p.isAllocated x = true
  after : a' = a.setPools (pre ++ p.unmark x :: post)

section Pools

variable {pre post : List AddressPool} {p p' : AddressPool} {x y : UInt32}

/-- The allocation state of an address in a list of pools. -/
def allocatedIn (pools : List AddressPool) (x : UInt32) : Bool :=
  (pools.find? (addressBelongsToPool · x)).any (·.isAllocated x)

theorem isAllocated_eq (a : AddressAllocator) (x : UInt32) :
    a.isAllocated x = allocatedIn a.addressPools x := rfl

theorem allocatedIn_cons (p : AddressPool) (pools : List AddressPool) (x : UInt32) :
    allocatedIn (p :: pools) x =
      if addressBelongsToPool p x then p.isAllocated x else allocatedIn pools x := by
  unfold allocatedIn
  cases h : addressBelongsToPool p x <;> simp [h]

theorem allocatedIn_congr (hs : p'.shape = p.shape) (h : p'.isAllocated y = p.isAllocated y) :
    allocatedIn (pre ++ p' :: post) y = allocatedIn (pre ++ p :: post) y := by
  induction pre with
  | nil => simp only [List.nil_append, allocatedIn_cons, AddressPool.belongs_of_shape hs, h]
  | cons q pre ih => simp only [List.cons_append, allocatedIn_cons, ih]

theorem allocatedIn_mono (hs : p'.shape = p.shape)
    (h : p.isAllocated y = true → p'.isAllocated y = true)
    (hy : allocatedIn (pre ++ p :: post) y = true) : allocatedIn (pre ++ p' :: post) y = true := by
  induction pre with
  | nil =>
    simp only [List.nil_append, allocatedIn_cons, AddressPool.belongs_of_shape hs] at hy ⊢
    split <;> simp_all
  | cons q pre ih =>
    simp only [List.cons_append, allocatedIn_cons] at hy ⊢
    split <;> simp_all

theorem allocatedIn_first (hpre : ∀ q ∈ pre, addressBelongsToPool q x = false)
    (hx : addressBelongsToPool p x = true) :
    allocatedIn (pre ++ p :: post) x = p.isAllocated x := by
  rw [allocatedIn, find?_append_first (q := (addressBelongsToPool · x)) hpre hx]
  rfl

theorem shape_replace (pre post : List AddressPool) (hs : p'.shape = p.shape) :
    (pre ++ p' :: post).map AddressPool.shape = (pre ++ p :: post).map AddressPool.shape := by
  simp [hs]

end Pools

section Effects

variable {a a' : AddressAllocator} {pre post : List AddressPool} {p : AddressPool} {x y : UInt32}

theorem Grants.shape (h : Grants a a' pre p post x) : a'.shape = a.shape := by
  have hp := shape_replace pre post (p.mark_shape (x := x))
  rw [h.after, AddressAllocator.shape, AddressAllocator.shape, h.before, ← hp]
  rfl

theorem Grants.isAllocated_ne (h : Grants a a' pre p post x) (hy : y ≠ x) :
    a'.isAllocated y = a.isAllocated y := by
  rw [h.after, isAllocated_eq, isAllocated_eq, h.before]
  exact allocatedIn_congr p.mark_shape (AddressPool.mark_isAllocated_ne h.belongs hy)

theorem Grants.isAllocated_mono (h : Grants a a' pre p post x) (hy : a.isAllocated y = true) :
    a'.isAllocated y = true := by
  rw [isAllocated_eq, h.before] at hy
  rw [h.after, isAllocated_eq]
  exact allocatedIn_mono p.mark_shape AddressPool.mark_isAllocated_of_isAllocated hy

theorem Frees.belongs (h : Frees a a' pre p post x) : addressBelongsToPool p x = true :=
  AddressPool.belongs_of_isAllocated h.allocated

theorem Frees.shape (h : Frees a a' pre p post x) : a'.shape = a.shape := by
  have hp := shape_replace pre post (p.unmark_shape (x := x))
  rw [h.after, AddressAllocator.shape, AddressAllocator.shape, h.before, ← hp]
  rfl

theorem Frees.isAllocated (h : Frees a a' pre p post x) :
    a'.isAllocated y = (a.isAllocated y && y != x) := by
  rw [h.after, isAllocated_eq, isAllocated_eq, h.before]
  have hun : ∀ z, (p.unmark x).isAllocated z = (p.isAllocated z && z != x) :=
    fun z => AddressPool.unmark_isAllocated h.allocated
  by_cases hy : y = x
  · subst hy
    have hb : addressBelongsToPool (p.unmark y) y = true :=
      (AddressPool.belongs_of_shape p.unmark_shape y).trans h.belongs
    show allocatedIn (pre ++ p.unmark y :: post) y = _
    rw [allocatedIn_first h.first hb, hun]
    simp
  · rw [bne_iff_ne.mpr hy, Bool.and_true]
    exact allocatedIn_congr p.unmark_shape (by rw [hun, bne_iff_ne.mpr hy, Bool.and_true])

end Effects

section Operations

variable (a : AddressAllocator) (pool : AddressPool) (x : UInt32)

theorem setPools_self : a.setPools a.addressPools = a := rfl

/-- `allocator_assign_first_from_pool` takes the least free address, if there is one. -/
theorem assign_cases :
    (∃ x, allocatorAssignFirstFromPool pool = ((.ok, some x), pool.mark x) ∧
      addressBelongsToPool pool x = true ∧ pool.isAllocated x = false ∧
      ∀ y, addressBelongsToPool pool y = true → y < x → pool.isAllocated y = true) ∨
    (allocatorAssignFirstFromPool pool = ((.poolDepleted, none), pool) ∧
      ∀ y, addressBelongsToPool pool y = true → pool.isAllocated y = true) := by
  have hget : ∀ y, addressBelongsToPool pool y = true →
      ((pool.getAllocation y == 0) = !pool.isAllocated y) := by
    intro y hy
    rw [AddressPool.get_eq, if_pos hy]
    cases pool.isAllocated y <;> rfl
  unfold allocatorAssignFirstFromPool
  cases hf : pool.addresses.find? fun a => pool.getAllocation a == 0 with
  | some x =>
    obtain ⟨hx, pre, post, hsplit, hpre⟩ := List.find?_eq_some_iff_append.mp hf
    have hmem : x ∈ pool.addresses := by simp [hsplit]
    have hb := AddressPool.mem_addresses.mp hmem
    have hfree : pool.isAllocated x = false := by simpa [hget x hb] using hx
    refine .inl ⟨x, ?_, hb, hfree, ?_⟩
    · simp [AddressPool.set_eq, hb, hfree]
    · intro y hy hlt
      have hinc := pool.addresses_increasing
      have hy' := AddressPool.mem_addresses.mpr hy
      rw [hsplit] at hinc hy'
      -- what stands behind `x` is larger than `x`
      have hin : y ∈ pre := by
        rcases List.mem_append.mp hy' with h | h
        · exact h
        · rcases List.mem_cons.mp h with rfl | h
          · exact absurd hlt (UInt32.lt_irrefl _)
          · have hgt := (List.pairwise_cons.mp (List.pairwise_append.mp hinc).2.1).1 y h
            exact absurd (UInt32.lt_trans hlt hgt) (UInt32.lt_irrefl _)
      have := hpre y hin
      rw [hget y hy] at this
      simpa using this
  | none =>
    refine .inr ⟨rfl, ?_⟩
    intro y hy
    have := List.find?_eq_none.mp hf y (AddressPool.mem_addresses.mpr hy)
    rw [hget y hy] at this
    simpa using this

/-- The pools of which `allocator_request_any_address` takes nothing. -/
def passedOver (q : AddressPool) : Prop :=
  q.availableAddresses = 0 ∨ ∀ y, addressBelongsToPool q y = true → q.isAllocated y = true

theorem requestAnyFrom_cases (pools : List AddressPool) :
    (∃ pre p post x, pools = pre ++ p :: post ∧
      requestAnyFrom pools = (some x, pre ++ p.mark x :: post) ∧ p.availableAddresses ≠ 0 ∧
      addressBelongsToPool p x = true ∧ p.isAllocated x = false ∧
      (∀ y, addressBelongsToPool p y = true → y < x → p.isAllocated y = true) ∧
      ∀ q ∈ pre, passedOver q) ∨
    (requestAnyFrom pools = (none, pools) ∧ ∀ q ∈ pools, passedOver q) := by
  induction pools with
  | nil => exact .inr ⟨rfl, by simp⟩
  | cons q rest ih =>
    -- the pool is passed over and the loop goes on
    have hskip : passedOver q → requestAnyFrom (q :: rest) =
        ((requestAnyFrom rest).1, q :: (requestAnyFrom rest).2) →
        (∃ pre p post x, q :: rest = pre ++ p :: post ∧
          requestAnyFrom (q :: rest) = (some x, pre ++ p.mark x :: post) ∧
          p.availableAddresses ≠ 0 ∧ addressBelongsToPool p x = true ∧ p.isAllocated x = false ∧
          (∀ y, addressBelongsToPool p y = true → y < x → p.isAllocated y = true) ∧
          ∀ q ∈ pre, passedOver q) ∨
        (requestAnyFrom (q :: rest) = (none, q :: rest) ∧ ∀ r ∈ q :: rest, passedOver r) := by
      intro hq heq
      rcases ih with ⟨pre, p, post, x, rfl, hr, hav, hb, hf, hl, hpre⟩ | ⟨hr, hall⟩
      · refine .inl ⟨q :: pre, p, post, x, rfl, by rw [heq, hr]; rfl, hav, hb, hf, hl, ?_⟩
        exact List.forall_mem_cons.mpr ⟨hq, hpre⟩
      · exact .inr ⟨by rw [heq, hr], List.forall_mem_cons.mpr ⟨hq, hall⟩⟩
    by_cases hav : q.availableAddresses = 0
    · exact hskip (.inl hav) (by rw [requestAnyFrom, if_pos hav])
    · rcases assign_cases q with ⟨x, hx, hb, hf, hl⟩ | ⟨hx, hfull⟩
      · refine .inl ⟨[], q, rest, x, rfl, ?_, hav, hb, hf, hl, by simp⟩
        rw [requestAnyFrom, if_neg hav, hx]
        rfl
      · exact hskip (.inr hfull) (by rw [requestAnyFrom, if_neg hav, hx])

theorem requestAny_cases :
    (∃ pre p post x a', allocatorRequestAnyAddress a = ((.ok, some x), a') ∧
      Grants a a' pre p post x ∧
      (∀ y, addressBelongsToPool p y = true → y < x → p.isAllocated y = true) ∧
      p.availableAddresses ≠ 0 ∧ ∀ q ∈ pre, passedOver q) ∨
    (allocatorRequestAnyAddress a = ((.ok, none), a) ∧ ∀ q ∈ a.addressPools, passedOver q) := by
  rcases requestAnyFrom_cases a.addressPools with
    ⟨pre, p, post, x, hsplit, hr, hav, hb, hf, hl, hpre⟩ | ⟨hr, hall⟩
  · refine .inl ⟨pre, p, post, x, _, ?_, ⟨hsplit, hb, hf, rfl⟩, hl, hav, hpre⟩
    simp [allocatorRequestAnyAddress, hr]
  · refine .inr ⟨?_, hall⟩
    rw [allocatorRequestAnyAddress, hr]
    rfl

theorem hasPool_eq_false : a.hasPool x = false ↔
    ∀ p ∈ a.addressPools, addressBelongsToPool p x = false := by
  simp [hasPool, allocatorGetPoolByAddress]

theorem hasPool_eq_true : a.hasPool x = true ↔
    ∃ p ∈ a.addressPools, addressBelongsToPool p x = true := by
  simp [hasPool, allocatorGetPoolByAddress]

theorem requestThis_cases :
    (allocatorRequestThisAddress a x = ((.cannotCreateLease, none), a) ∧ a.hasPool x = false) ∨
    (allocatorRequestThisAddress a x = ((.addrInUse, none), a) ∧ a.isAllocated x = true) ∨
    (∃ pre p post a', allocatorRequestThisAddress a x = ((.ok, some x), a') ∧
      Grants a a' pre p post x ∧ ∀ q ∈ pre, addressBelongsToPool q x = false) := by
  unfold allocatorRequestThisAddress onPool
  cases hon : onFirst (addressBelongsToPool · x) (requestFromFound x) a.addressPools with
  | none => exact .inl ⟨rfl, (hasPool_eq_false a x).mpr (onFirst_eq_none.mp hon)⟩
  | some r =>
    obtain ⟨pre, p, post, hsplit, hpre, hb, rfl⟩ := onFirst_eq_some hon
    cases halloc : p.isAllocated x with
    | true =>
      have hf : requestFromFound x p = ((.addrInUse, none), p) := by
        simp [requestFromFound, AddressPool.get_eq, hb, halloc]
      refine .inr (.inl ⟨?_, ?_⟩)
      · rw [hf]
        simp only [← hsplit, setPools_self]
      · rw [isAllocated_eq, hsplit, allocatedIn_first hpre hb, halloc]
    | false =>
      have hf : requestFromFound x p = ((.ok, some x), p.mark x) := by
        simp [requestFromFound, AddressPool.get_eq, AddressPool.set_eq, hb, halloc]
      refine .inr (.inr ⟨pre, p, post, _, ?_, ⟨hsplit, hb, halloc, rfl⟩, hpre⟩)
      rw [hf]

theorem release_cases :
    (allocatorReleaseAddress a x = ((.error, none), a) ∧ a.hasPool x = false) ∨
    (allocatorReleaseAddress a x = ((.addrNotInUse, none), a) ∧ a.hasPool x = true ∧
      a.isAllocated x = false) ∨
    (∃ pre p post a', allocatorReleaseAddress a x = ((.ok, none), a') ∧
      Frees a a' pre p post x) := by
  unfold allocatorReleaseAddress onPool
  cases hon : onFirst (addressBelongsToPool · x) (releaseFromFound x) a.addressPools with
  | none => exact .inl ⟨rfl, (hasPool_eq_false a x).mpr (onFirst_eq_none.mp hon)⟩
  | some r =>
    obtain ⟨pre, p, post, hsplit, hpre, hb, rfl⟩ := onFirst_eq_some hon
    cases halloc : p.isAllocated x with
    | true =>
      have hf : releaseFromFound x p = ((.ok, none), p.unmark x) := by
        simp [releaseFromFound, AddressPool.get_eq, AddressPool.clear_eq, hb, halloc]
      refine .inr (.inr ⟨pre, p, post, _, ?_, ⟨hsplit, hpre, halloc, rfl⟩⟩)
      rw [hf]
    | false =>
      have hf : releaseFromFound x p = ((.addrNotInUse, none), p) := by
        simp [releaseFromFound, AddressPool.get_eq, hb, halloc]
      refine .inr (.inl ⟨?_, ?_, ?_⟩)
      · rw [hf]
        simp only [← hsplit, setPools_self]
      · exact (hasPool_eq_true a x).mpr ⟨p, by simp [hsplit], hb⟩
      · rw [isAllocated_eq, hsplit, allocatedIn_first hpre hb, halloc]

theorem fromPool_cases (name : CString) :
    (allocatorRequestAddressFromPool a name = ((.error, none), a) ∧
      ∀ p ∈ a.addressPools, p.name ≠ name) ∨
    (∃ pre p post, a.addressPools = pre ++ p :: post ∧ p.name = name ∧
      (∀ q ∈ pre, q.name ≠ name) ∧
      ((allocatorRequestAddressFromPool a name = ((.poolDepleted, none), a) ∧
          ∀ y, addressBelongsToPool p y = true → p.isAllocated y = true) ∨
        (∃ x a', allocatorRequestAddressFromPool a name = ((.ok, some x), a') ∧
          Grants a a' pre p post x ∧
          ∀ y, addressBelongsToPool p y = true → y < x → p.isAllocated y = true))) := by
  unfold allocatorRequestAddressFromPool onPool
  cases hon : onFirst (·.name == name) allocatorAssignFirstFromPool a.addressPools with
  | none =>
    refine .inl ⟨rfl, ?_⟩
    simpa using onFirst_eq_none.mp hon
  | some r =>
    obtain ⟨pre, p, post, hsplit, hpre, hb, rfl⟩ := onFirst_eq_some hon
    refine .inr ⟨pre, p, post, hsplit, by simpa using hb, by simpa using hpre, ?_⟩
    rcases assign_cases p with ⟨x, hx, hbx, hf, hl⟩ | ⟨hx, hfull⟩
    · refine .inr ⟨x, _, ?_, ⟨hsplit, hbx, hf, rfl⟩, hl⟩
      rw [hx]
    · refine .inl ⟨?_, hfull⟩
      rw [hx]
      simp only [← hsplit, setPools_self]

theorem isAvailable_eq : allocatorIsAddressAvailable a x = (a.hasPool x && !a.isAllocated x) := by
  unfold allocatorIsAddressAvailable hasPool isAllocated
  cases h : allocatorGetPoolByAddress a x with
  | none => rfl
  | some p =>
    have hb : addressBelongsToPool p x = true := by simpa using List.find?_some h
    cases halloc : p.isAllocated x <;> simp [AddressPool.get_eq, hb, halloc]

end Operations

section Shape

variable {a a' : AddressAllocator}

theorem pools_of_shape (h : a'.shape = a.shape) :
    a'.addressPools.map AddressPool.shape = a.addressPools.map AddressPool.shape :=
  congrArg Prod.snd h

/-- The names of the pools, under which their lease files are kept. -/
def poolNames (a : AddressAllocator) : List CString := a.addressPools.map AddressPool.name

theorem poolNames_of_shape (h : a'.shape = a.shape) : a'.poolNames = a.poolNames := by
  have hn : ∀ b : AddressAllocator, b.poolNames =
      (b.addressPools.map AddressPool.shape).map Prod.fst := by
    intro b
    rw [List.map_map]
    rfl
  rw [hn, hn, pools_of_shape h]

theorem exists_same_shape (h : a'.shape = a.shape) {p : AddressPool} (hp : p ∈ a'.addressPools) :
    ∃ q ∈ a.addressPools, q.shape = p.shape := by
  have hm : p.shape ∈ a.addressPools.map AddressPool.shape := by
    rw [← pools_of_shape h]
    exact List.mem_map_of_mem hp
  obtain ⟨q, hq, hs⟩ := List.mem_map.mp hm
  exact ⟨q, hq, hs⟩

/-- The range of a pool shape. -/
def inRange (s : CString × UInt32 × UInt32 × UInt32 × List DhcpOption) (x : UInt32) : Bool :=
  decide (s.2.1 ≤ x) && decide (x ≤ s.2.2.1)

/-- The pool found for an address has the same shape in allocators of the same shape. -/
theorem getPool_of_shape (h : a'.shape = a.shape) (x : UInt32) :
    (allocatorGetPoolByAddress a' x).map AddressPool.shape =
      (allocatorGetPoolByAddress a x).map AddressPool.shape := by
  have hfind : ∀ b : AddressAllocator, (allocatorGetPoolByAddress b x).map AddressPool.shape =
      (b.addressPools.map AddressPool.shape).find? (inRange · x) := by
    intro b
    rw [List.find?_map]
    rfl
  rw [hfind, hfind, pools_of_shape h]

theorem disjoint_iff_shape : a.Disjoint ↔ (a.addressPools.map AddressPool.shape).Pairwise
    fun s t => ∀ x, inRange s x = true → inRange t x = false := by
  rw [List.pairwise_map]
  rfl

/-- Pools listed in the order of their addresses are disjoint. -/
theorem disjoint_of_increasing
    (h : a.addressPools.Pairwise fun p q => p.endAddress < q.startAddress) : a.Disjoint := by
  refine h.imp ?_
  intro p q hpq x hx
  rw [← Bool.not_eq_true, AddressPool.belongs_iff]
  have hp := AddressPool.belongs_iff.mp hx
  have := UInt32.lt_iff_toNat_lt.mp hpq
  omega

theorem disjoint_of_shape (h : a'.shape = a.shape) (hd : a.Disjoint) : a'.Disjoint := by
  rw [disjoint_iff_shape, pools_of_shape h]
  exact disjoint_iff_shape.mp hd

theorem covered_of_shape (h : a'.shape = a.shape) (hc : a.Covered) : a'.Covered := by
  intro p hp
  obtain ⟨q, hq, hs⟩ := exists_same_shape h hp
  exact (AddressPool.covered_of_shape hs).mp (hc q hq)

theorem hasPool_of_shape (h : a'.shape = a.shape) (x : UInt32) : a'.hasPool x = a.hasPool x := by
  have hrange : ∀ b : AddressAllocator, b.hasPool x = true ↔
      ∃ s ∈ b.addressPools.map AddressPool.shape, inRange s x = true := by
    intro b
    rw [hasPool_eq_true]
    exact ⟨fun ⟨p, hp, hx⟩ => ⟨p.shape, List.mem_map_of_mem hp, hx⟩,
      fun ⟨s, hs, hx⟩ => (List.mem_map.mp hs).elim fun p hp => ⟨p, hp.1, by rwa [← hp.2] at hx⟩⟩
  rw [Bool.eq_iff_iff, hrange, hrange, pools_of_shape h]

theorem wellFormed_of_shape (h : a'.shape = a.shape)
    (hw : a.WellFormed) : a'.WellFormed := by
  refine ⟨disjoint_of_shape h hw.disjoint, covered_of_shape h hw.covered, ?_⟩
  show a'.poolNames.Nodup
  rw [poolNames_of_shape h]
  exact hw.names

theorem disjoint_split {pre post : List AddressPool} {p : AddressPool} {x : UInt32}
    (hd : a.Disjoint) (hsplit : a.addressPools = pre ++ p :: post) (hx : addressBelongsToPool p x = true) :
    ∀ q ∈ pre ++ post, addressBelongsToPool q x = false := by
  rw [Disjoint, hsplit] at hd
  obtain ⟨-, hpost, hpre⟩ := List.pairwise_append.mp hd
  intro q hq
  rcases List.mem_append.mp hq with hq | hq
  · by_contra hne
    have hf := hpre q hq p (by simp) x (Bool.eq_true_of_not_eq_false hne)
    simp [hx] at hf
  · exact (List.pairwise_cons.mp hpost).1 q hq x hx

/-- With disjoint pools the pool that contains an address is the one that is found for it. -/
theorem getPool_of_belongs {p : AddressPool} {x : UInt32} (hd : a.Disjoint)
    (hp : p ∈ a.addressPools) (hx : addressBelongsToPool p x = true) :
    allocatorGetPoolByAddress a x = some p := by
  obtain ⟨pre, post, hsplit⟩ := List.append_of_mem hp
  have hother := disjoint_split hd hsplit hx
  rw [allocatorGetPoolByAddress, hsplit]
  exact find?_append_first (fun q hq => hother q (List.mem_append_left _ hq)) hx

theorem isAllocated_of_belongs {p : AddressPool} {x : UInt32} (hd : a.Disjoint)
    (hp : p ∈ a.addressPools) (hx : addressBelongsToPool p x = true) :
    a.isAllocated x = p.isAllocated x := by
  rw [isAllocated, getPool_of_belongs hd hp hx]
  rfl

theorem WellFormed.name_inj (hw : a.WellFormed) {p q : AddressPool} (hp : p ∈ a.addressPools)
    (hq : q ∈ a.addressPools) (h : p.name = q.name) : p = q :=
  List.inj_on_of_nodup_map hw.names hp hq h

end Shape

section Adding

theorem addPool_pools (a : AddressAllocator) (pool : AddressPool) :
    (allocatorAddPool a pool).2.addressPools = a.addressPools ∨
    ((∀ p ∈ a.addressPools, p.name ≠ pool.name) ∧
      (allocatorAddPool a pool).2.addressPools = a.addressPools ++ [pool]) := by
  unfold allocatorAddPool
  cases hn : allocatorGetPoolByName a pool.name with
  | some p => exact .inl rfl
  | none =>
    refine .inr ⟨?_, rfl⟩
    simpa [allocatorGetPoolByName] using hn

theorem addPool_names {a : AddressAllocator} {pool : AddressPool}
    (hn : (a.addressPools.map (·.name)).Nodup) :
    ((allocatorAddPool a pool).2.addressPools.map (·.name)).Nodup := by
  rcases addPool_pools a pool with heq | ⟨hne, heq⟩
  · rwa [heq]
  · rw [heq, List.map_append, List.nodup_append]
    refine ⟨hn, by simp, ?_⟩
    intro n hn' n' hn''
    obtain ⟨p, hp, rfl⟩ := List.mem_map.mp hn'
    rw [List.map_singleton, List.mem_singleton] at hn''
    exact hn'' ▸ hne p hp

end Adding

section Summary

variable (a : AddressAllocator) (x : UInt32)

theorem isAllocated_of_hasPool {a : AddressAllocator} {x : UInt32} (h : a.hasPool x = false) :
    a.isAllocated x = false := by
  have hnone : allocatorGetPoolByAddress a x = none := by simpa [hasPool] using h
  rw [isAllocated, hnone]
  rfl

/-- A release takes the address out and leaves all others as they are, whatever its status. -/
theorem release_isAllocated (y : UInt32) :
    (allocatorReleaseAddress a x).2.isAllocated y = (a.isAllocated y && y != x) := by
  have hsame : a.isAllocated x = false → a.isAllocated y = (a.isAllocated y && y != x) := by
    intro hx
    by_cases hy : y = x
    · simp [hy, hx]
    · simp [hy]
  rcases release_cases a x with ⟨heq, hp⟩ | ⟨heq, -, hx⟩ | ⟨pre, p, post, a', heq, hf⟩
  · rw [heq]
    exact hsame (isAllocated_of_hasPool hp)
  · rw [heq]
    exact hsame hx
  · rw [heq]
    exact hf.isAllocated

/-- With disjoint pools a release changes the one pool that contains the address. -/
theorem release_pools {a : AddressAllocator} {x : UInt32} (hd : a.Disjoint)
    (hx : a.isAllocated x = true) : (allocatorReleaseAddress a x).2.addressPools =
      a.addressPools.map fun p => if addressBelongsToPool p x then p.unmark x else p := by
  rcases release_cases a x with ⟨-, hp⟩ | ⟨-, -, hfree⟩ | ⟨pre, p, post, a', heq, hf⟩
  · rw [isAllocated_of_hasPool hp] at hx
    cases hx
  · rw [hfree] at hx
    cases hx
  · have hother := disjoint_split hd hf.before hf.belongs
    have hsame : ∀ l : List AddressPool, (∀ q ∈ l, addressBelongsToPool q x = false) →
        l.map (fun p => if addressBelongsToPool p x then p.unmark x else p) = l := by
      intro l hl
      rw [List.map_congr_left fun q hq => by rw [hl q hq, if_neg Bool.false_ne_true], List.map_id']
    rw [heq, hf.after, hf.before, List.map_append, List.map_cons, hf.belongs, if_pos rfl,
      hsame pre fun q hq => hother q (List.mem_append_left _ hq),
      hsame post fun q hq => hother q (List.mem_append_right _ hq)]
    rfl

theorem release_shape : (allocatorReleaseAddress a x).2.shape = a.shape := by
  rcases release_cases a x with ⟨heq, -⟩ | ⟨heq, -⟩ | ⟨pre, p, post, a', heq, hf⟩
  · rw [heq]
  · rw [heq]
  · rw [heq]
    exact hf.shape

theorem requestThis_shape : (allocatorRequestThisAddress a x).2.shape = a.shape := by
  rcases requestThis_cases a x with ⟨heq, -⟩ | ⟨heq, -⟩ | ⟨pre, p, post, a', heq, hg, -⟩
  · rw [heq]
  · rw [heq]
  · rw [heq]
    exact hg.shape

theorem requestThis_mono {y : UInt32} (hy : a.isAllocated y = true) :
    (allocatorRequestThisAddress a x).2.isAllocated y = true := by
  rcases requestThis_cases a x with ⟨heq, -⟩ | ⟨heq, -⟩ | ⟨pre, p, post, a', heq, hg, -⟩
  · rwa [heq]
  · rwa [heq]
  · rw [heq]
    exact hg.isAllocated_mono hy

/-- What is not available stays so when the allocated addresses stay allocated. -/
theorem notAvailable_of_mono {a a' : AddressAllocator} (hshape : a'.shape = a.shape) {y : UInt32}
    (hmono : a.isAllocated y = true → a'.isAllocated y = true)
    (hy : allocatorIsAddressAvailable a y = false) : allocatorIsAddressAvailable a' y = false := by
  rw [isAvailable_eq, Bool.and_eq_false_iff, Bool.not_eq_false'] at hy ⊢
  exact hy.imp (hasPool_of_shape hshape y).trans hmono

end Summary

end AddressAllocator

end DHCPServer
