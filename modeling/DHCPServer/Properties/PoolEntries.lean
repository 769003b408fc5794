import DHCPServer.Server.ConfigFile

namespace DHCPServer

/-- The values that a pool is tried with. -/
structure PoolAttempt where
  poolName : CString
  poolStart : UInt32
  poolEnd : UInt32
  poolMask : UInt32
  deriving DecidableEq

def poolAttempt (r : Option CString × PoolVariables) : Option PoolAttempt :=
  r.1.map fun name => ⟨name, r.2.poolStart, r.2.poolEnd, r.2.poolMask⟩

/-- What the loop of `config_load_pools_config` does with the entries, up to the first fault. -/
def poolOutcomes : PoolVariables → List Json → List (Except Fault (Option PoolAttempt))
  | _, [] => []
  | v, pool :: pools =>
    match loadPoolAttributes v pool with
    | .error f => [.error f]
    | .ok r => .ok (poolAttempt r) :: poolOutcomes r.2 pools

def initialVariables : PoolVariables := ⟨none, 0, 0, 0⟩

/-- What the loop does with an entry that has no others before it. -/
def aloneOutcome (pool : Json) : Except Fault (Option PoolAttempt) :=
  (loadPoolAttributes initialVariables pool).map poolAttempt

/-- The pool that an attempt creates and adds. -/
def createPool (allocator : AddressAllocator) (pool : Json) (attempt : Option PoolAttempt) :
    AddressAllocator :=
  match attempt.bind fun t => addressPoolNew t.poolName t.poolStart t.poolEnd t.poolMask with
  | none => allocator
  | some newPool =>
    let (loaded, options) := configLoadDhcpOptions newPool.dhcpOptionOverride
      (pool.getObjectItem "options".toList)
    if loaded then (allocatorAddPool allocator { newPool with dhcpOptionOverride := options }).2
    else allocator

section Reading

/-- The member of the nearest entry that has it, among the entries that are read up to it. The
entries stand with the last one first. -/
def lastRead (key : CString) (reached : List Json → Bool) : List Json → Option Json
  | [] => none
  | e :: before =>
    if reached (e :: before) then (e.getObjectItem key).or (lastRead key reached before)
    else lastRead key reached before

/-- The address in a member, 0 if there is none. -/
def addressOf (object : Option Json) : UInt32 :=
  ((object.bind Json.getStringValue).map ipv4AddressToUint32).getD 0

/-- A member that is there and not a string. -/
def notString (object : Option Json) : Bool := object.any fun v => v.getStringValue.isNone

/-- The address that the entries leave under a key. -/
def addressRead (key : CString) (reached : List Json → Bool) (es : List Json) : UInt32 :=
  addressOf (lastRead key reached es)

def nameRead (es : List Json) : Option CString :=
  (lastRead "name".toList (fun _ => true) es).bind Json.getStringValue

def named (es : List Json) : Bool := (nameRead es).isSome

def startRead (es : List Json) : UInt32 := addressRead "start".toList named es

def started (es : List Json) : Bool := named es && startRead es != 0

def endRead (es : List Json) : UInt32 := addressRead "end".toList started es

def ended (es : List Json) : Bool := started es && endRead es != 0

def maskRead (es : List Json) : UInt32 := addressRead "subnet".toList ended es

/-- The last of the entries is read to its end, with the values of the ones before it where it has
none. -/
def complete (es : List Json) : Bool := ended es && maskRead es != 0

/-- It is read up to an address that is not a string. -/
def crashes : List Json → Bool
  | [] => false
  | e :: before =>
    (named (e :: before) && notString (e.getObjectItem "start".toList)) ||
    (started (e :: before) && notString (e.getObjectItem "end".toList)) ||
    (ended (e :: before) && notString (e.getObjectItem "subnet".toList))

/-- The variables behind the last of the entries. -/
def leftover (es : List Json) : PoolVariables :=
  ⟨nameRead es, startRead es, endRead es, maskRead es⟩

/-- What the loop does with the last of the entries. -/
def outcomeRead (es : List Json) : Except Fault (Option PoolAttempt) :=
  if crashes es then .error .nullDeref
  else .ok (poolAttempt (if complete es then nameRead es else none, leftover es))

end Reading

/-- The entry has the attributes. -/
def Holds (e : Json) (keys : List String) : Prop :=
  ∀ key ∈ keys, (e.getObjectItem key.toList).isSome

/-- Where the values left by earlier entries would carry an entry to a pool or to a fault, none of
them is in use: the entry has all attributes up to there. -/
structure OwnAttributes (before : List Json) (e : Json) : Prop where
  tried : complete (e :: before) → Holds e ["name", "start", "end", "subnet"]
  start : named (e :: before) → notString (e.getObjectItem "start".toList) → Holds e ["name"]
  «end» : started (e :: before) → notString (e.getObjectItem "end".toList) →
    Holds e ["name", "start"]
  subnet : ended (e :: before) → notString (e.getObjectItem "subnet".toList) →
    Holds e ["name", "start", "end"]

/-- The entries behind `before` use only their own attributes, and none but the last one ends with
a fault. -/
def Separate : List Json → List Json → Prop
  | _, [] => True
  | before, e :: pools =>
    OwnAttributes before e ∧ (crashes (e :: before) → pools = []) ∧ Separate (e :: before) pools

/-- An attribute of the entry is missing, or cannot be read. -/
def Unusable (e : Json) : Prop :=
  stringMember e "name".toList = none ∨ addressOf (e.getObjectItem "start".toList) = 0 ∨
    addressOf (e.getObjectItem "end".toList) = 0 ∨ addressOf (e.getObjectItem "subnet".toList) = 0

/-- Each entry is treated as if it were the only one, and without usable attributes it yields no
pool. -/
structure Independent (pools : List Json) : Prop where
  alone : poolOutcomes initialVariables pools = pools.map aloneOutcome
  unusable : ∀ p ∈ pools.zip (poolOutcomes initialVariables pools), Unusable p.1 →
    ∀ attempt, p.2 ≠ .ok (some attempt)

section Outcomes

variable {e : Json} {before pools : List Json} {key : CString} {reached : List Json → Bool}
  {object : Option Json}

theorem addressRead_unreached (h : reached (e :: before) = false) :
    addressRead key reached (e :: before) = addressRead key reached before := by
  rw [addressRead, lastRead, h]
  rfl

theorem addressRead_reached (h : reached (e :: before) = true) :
    addressRead key reached (e :: before) =
      addressOf ((e.getObjectItem key).or (lastRead key reached before)) := by
  rw [addressRead, lastRead, if_pos h]

theorem addressRead_notString (h : reached (e :: before) = true)
    (hbad : notString (e.getObjectItem key) = true) : addressRead key reached (e :: before) = 0 := by
  obtain ⟨v, hv, htext⟩ := (Option.any_eq_true _ _).mp hbad
  rw [addressRead_reached h, hv]
  simp [addressOf, Option.isNone_iff_eq_none.mp htext]

/-- An address that is read. -/
theorem loadPoolAddress_reached (h : reached (e :: before) = true) :
    loadPoolAddress (e.getObjectItem key) (addressRead key reached before) =
      if notString (e.getObjectItem key) then .error .nullDeref
      else .ok (addressRead key reached (e :: before)) := by
  rw [addressRead_reached h]
  cases e.getObjectItem key with
  | none => rfl
  | some v =>
    cases htext : v.getStringValue with
    | none => simp [loadPoolAddress, notString, htext, deref, bind, Except.bind]
    | some text =>
      simp [loadPoolAddress, notString, addressOf, htext, deref, bind, Except.bind, pure,
        Except.pure]

theorem unstarted (h : started (e :: before) = false) :
    endRead (e :: before) = endRead before ∧ ended (e :: before) = false :=
  ⟨addressRead_unreached h, by rw [ended, h, Bool.false_and]⟩

theorem unended (h : ended (e :: before) = false) :
    maskRead (e :: before) = maskRead before ∧ complete (e :: before) = false :=
  ⟨addressRead_unreached h, by rw [complete, h, Bool.false_and]⟩

/-- The name is read first, by every entry. -/
theorem loadPoolAttributes_eq (before : List Json) (e : Json) :
    loadPoolAttributes (leftover before) e =
      match nameRead (e :: before) with
      | none => .ok (none, { leftover before with poolName := none })
      | some name => do
        let start ← loadPoolAddress (e.getObjectItem "start".toList) (startRead before)
        if start = 0 then return (none, ⟨some name, start, endRead before, maskRead before⟩)
        let «end» ← loadPoolAddress (e.getObjectItem "end".toList) (endRead before)
        if «end» = 0 then return (none, ⟨some name, start, «end», maskRead before⟩)
        let mask ← loadPoolAddress (e.getObjectItem "subnet".toList) (maskRead before)
        if mask = 0 then return (none, ⟨some name, start, «end», mask⟩)
        return (some name, ⟨some name, start, «end», mask⟩) := by
  have hread : nameRead (e :: before) =
      (e.getObjectItem "name".toList).elim (nameRead before) Json.getStringValue := by
    rw [nameRead, lastRead, if_pos rfl, nameRead]
    cases e.getObjectItem "name".toList with
    | none => rfl
    | some v => rfl
  rw [loadPoolAttributes, hread]
  cases e.getObjectItem "name".toList with
  | none =>
    dsimp only [Option.elim_none, leftover]
    cases nameRead before <;> rfl
  | some v =>
    dsimp only [Option.elim_some, leftover]
    cases v.getStringValue <;> rfl

/-- One address: a fault, no address at all, or the next step. -/
theorem loadPoolAddress_step {α : Type} (h : reached (e :: before) = true)
    (stop go : UInt32 → Except Fault α) :
    (loadPoolAddress (e.getObjectItem key) (addressRead key reached before) >>= fun a =>
      if a = 0 then stop a else go a) =
    if notString (e.getObjectItem key) then .error .nullDeref
    else if addressRead key reached (e :: before) = 0 then stop (addressRead key reached (e :: before))
    else go (addressRead key reached (e :: before)) := by
  rw [loadPoolAddress_reached h]
  cases notString (e.getObjectItem key) <;> rfl

theorem loadPoolAttributes_unnamed (h : named (e :: before) = false) :
    loadPoolAttributes (leftover before) e =
      if crashes (e :: before) then .error .nullDeref
      else .ok (if complete (e :: before) then nameRead (e :: before) else none,
        leftover (e :: before)) := by
  have hname : nameRead (e :: before) = none := by simpa [named] using h
  have hstart : startRead (e :: before) = startRead before := addressRead_unreached h
  have hstarted : started (e :: before) = false := by rw [started, h, Bool.false_and]
  obtain ⟨hend, hended⟩ := unstarted hstarted
  obtain ⟨hmask, hcomplete⟩ := unended hended
  rw [loadPoolAttributes_eq, crashes, leftover, leftover, h, hname, hstart, hend, hmask, hstarted,
    hended, hcomplete]
  rfl

/-- The variables of the loop are what the entries before have left in them. -/
theorem loadPoolAttributes_leftover (before : List Json) (e : Json) :
    loadPoolAttributes (leftover before) e =
      if crashes (e :: before) then .error .nullDeref
      else .ok (if complete (e :: before) then nameRead (e :: before) else none,
        leftover (e :: before)) := by
  cases hnamed : named (e :: before) with
  | false => exact loadPoolAttributes_unnamed hnamed
  | true =>
  obtain ⟨name, hname⟩ := Option.isSome_iff_exists.mp hnamed
  rw [loadPoolAttributes_eq, crashes, leftover, leftover, hnamed, hname]
  -- behind an address that stops the entry, the later variables keep their values
  refine (loadPoolAddress_step hnamed _ _).trans ?_
  by_cases hbad : notString (e.getObjectItem "start".toList) = true
  · rw [if_pos hbad, hbad]
    rfl
  rw [if_neg hbad, Bool.eq_false_of_not_eq_true hbad]
  change (if startRead (e :: before) = 0 then _ else _) = _
  by_cases hzero : startRead (e :: before) = 0
  · have hstarted : started (e :: before) = false := by simp [started, hzero]
    obtain ⟨hend, hended⟩ := unstarted hstarted
    obtain ⟨hmask, hcomplete⟩ := unended hended
    rw [if_pos hzero, hend, hmask, hstarted, hended, hcomplete]
    rfl
  have hstarted : started (e :: before) = true := by simp [started, hnamed, hzero]
  rw [if_neg hzero, hstarted]
  -- the end, read by entries with a start
  refine (loadPoolAddress_step hstarted _ _).trans ?_
  by_cases hbad : notString (e.getObjectItem "end".toList) = true
  · rw [if_pos hbad, hbad]
    rfl
  rw [if_neg hbad, Bool.eq_false_of_not_eq_true hbad]
  change (if endRead (e :: before) = 0 then _ else _) = _
  by_cases hzero : endRead (e :: before) = 0
  · have hended : ended (e :: before) = false := by simp [ended, hzero]
    obtain ⟨hmask, hcomplete⟩ := unended hended
    rw [if_pos hzero, hmask, hended, hcomplete]
    rfl
  have hended : ended (e :: before) = true := by simp [ended, hstarted, hzero]
  rw [if_neg hzero, hended]
  -- the mask, read by entries with both
  refine (loadPoolAddress_step hended _ _).trans ?_
  by_cases hbad : notString (e.getObjectItem "subnet".toList) = true
  · rw [if_pos hbad, hbad]
    rfl
  rw [if_neg hbad, Bool.eq_false_of_not_eq_true hbad]
  change (if maskRead (e :: before) = 0 then _ else _) = _
  by_cases hzero : maskRead (e :: before) = 0
  · have hcomplete : complete (e :: before) = false := by simp [complete, hzero]
    rw [if_pos hzero, hcomplete]
    rfl
  · have hcomplete : complete (e :: before) = true := by simp [complete, hended, hzero]
    rw [if_neg hzero, hcomplete]
    rfl

theorem aloneOutcome_eq (e : Json) : aloneOutcome e = outcomeRead [e] := by
  have hread := loadPoolAttributes_leftover [] e
  rw [aloneOutcome, outcomeRead]
  change (loadPoolAttributes (leftover []) e).map poolAttempt = _
  rw [hread]
  cases crashes [e] <;> rfl

theorem poolOutcomes_cons (before pools : List Json) (e : Json) :
    poolOutcomes (leftover before) (e :: pools) =
      outcomeRead (e :: before) ::
        if crashes (e :: before) then [] else poolOutcomes (leftover (e :: before)) pools := by
  rw [poolOutcomes, loadPoolAttributes_leftover, outcomeRead]
  cases crashes (e :: before) <;> rfl

end Outcomes

section Attributes

variable {e : Json} {before pools : List Json} {key : CString} {reached : List Json → Bool}

/-- An address that is not a string ends the reading. -/
theorem step_notString (h : reached (e :: before) = true)
    (hbad : notString (e.getObjectItem key) = true) :
    (reached (e :: before) && addressRead key reached (e :: before) != 0) = false := by
  rw [addressRead_notString h hbad, bne_self_eq_false, Bool.and_false]

theorem not_started_of_notString (h : named (e :: before) = true)
    (hbad : notString (e.getObjectItem "start".toList) = true) : started (e :: before) = false :=
  step_notString h hbad

theorem not_ended_of_notString (h : started (e :: before) = true)
    (hbad : notString (e.getObjectItem "end".toList) = true) : ended (e :: before) = false :=
  step_notString h hbad

theorem not_complete_of_notString (h : ended (e :: before) = true)
    (hbad : notString (e.getObjectItem "subnet".toList) = true) : complete (e :: before) = false :=
  step_notString h hbad

theorem named_of_started {es : List Json} (h : started es = true) : named es = true :=
  (Bool.and_eq_true_iff.mp h).1

theorem started_of_ended {es : List Json} (h : ended es = true) : started es = true :=
  (Bool.and_eq_true_iff.mp h).1

theorem ended_of_complete {es : List Json} (h : complete es = true) : ended es = true :=
  (Bool.and_eq_true_iff.mp h).1

theorem crashes_iff : crashes (e :: before) = true ↔
    (named (e :: before) = true ∧ notString (e.getObjectItem "start".toList) = true) ∨
    (started (e :: before) = true ∧ notString (e.getObjectItem "end".toList) = true) ∨
    (ended (e :: before) = true ∧ notString (e.getObjectItem "subnet".toList) = true) := by
  rw [crashes, Bool.or_eq_true, Bool.or_eq_true, Bool.and_eq_true, Bool.and_eq_true,
    Bool.and_eq_true, or_assoc]

/-- An entry that is read to its end meets no fault on the way. -/
theorem not_crashes_of_complete (h : complete (e :: before) = true) :
    crashes (e :: before) = false := by
  have hended := ended_of_complete h
  have hstarted := started_of_ended hended
  rw [Bool.eq_false_iff]
  intro hcrash
  rcases crashes_iff.mp hcrash with ⟨hnamed, hbad⟩ | ⟨-, hbad⟩ | ⟨-, hbad⟩
  · exact absurd hstarted (by rw [not_started_of_notString hnamed hbad]; exact Bool.false_ne_true)
  · exact absurd hended (by rw [not_ended_of_notString hstarted hbad]; exact Bool.false_ne_true)
  · exact absurd h (by rw [not_complete_of_notString hended hbad]; exact Bool.false_ne_true)

/-- An attribute of its own leaves no room for an earlier one. -/
theorem addressRead_own (h : (e.getObjectItem key).isSome) (hr : reached (e :: before) = true)
    (hone : reached [e] = true) : addressRead key reached (e :: before) = addressRead key reached [e] := by
  obtain ⟨v, hv⟩ := Option.isSome_iff_exists.mp h
  rw [addressRead_reached hr, addressRead_reached hone, hv]
  rfl

theorem step_own (h : (e.getObjectItem key).isSome) (hr : reached (e :: before) = reached [e]) :
    (reached (e :: before) && addressRead key reached (e :: before) != 0) =
      (reached [e] && addressRead key reached [e] != 0) := by
  rw [hr]
  cases hone : reached [e] with
  | false => rfl
  | true => rw [addressRead_own h (hr.trans hone) hone]

theorem isSome_of_addressRead (h : addressRead key reached [e] ≠ 0) :
    (e.getObjectItem key).isSome := by
  cases hv : e.getObjectItem key with
  | some v => rfl
  | none =>
    have hnone : lastRead key reached [e] = none := by
      rw [lastRead, hv]
      split <;> rfl
    rw [addressRead, hnone] at h
    exact absurd rfl h

theorem Holds.of_subset {keys keys' : List String} (h : Holds e keys) (hs : keys' ⊆ keys) :
    Holds e keys' :=
  fun key hkey => h key (hs hkey)

theorem holds_concat {keys : List String} {k : String} (h : Holds e keys)
    (hk : (e.getObjectItem k.toList).isSome) : Holds e (keys ++ [k]) := by
  intro key hkey
  rcases List.mem_append.mp hkey with hkey | hkey
  · exact h key hkey
  · rwa [List.mem_singleton.mp hkey]

theorem nameRead_own (h : Holds e ["name"]) : nameRead (e :: before) = nameRead [e] := by
  obtain ⟨v, hv⟩ := Option.isSome_iff_exists.mp (h "name" (by simp))
  rw [nameRead, nameRead, lastRead, lastRead, hv]
  rfl

theorem named_own (h : Holds e ["name"]) : named (e :: before) = named [e] := by
  rw [named, named, nameRead_own h]

theorem started_own (h : Holds e ["name", "start"]) : started (e :: before) = started [e] :=
  step_own (h "start" (by simp)) (named_own (h.of_subset (by simp)))

theorem ended_own (h : Holds e ["name", "start", "end"]) : ended (e :: before) = ended [e] :=
  step_own (h "end" (by simp)) (started_own (h.of_subset (by simp)))

theorem complete_own (h : Holds e ["name", "start", "end", "subnet"]) :
    complete (e :: before) = complete [e] :=
  step_own (h "subnet" (by simp)) (ended_own (h.of_subset (by simp)))

/-- An entry on its own is read as far as it has the attributes. -/
theorem holds_of_named (h : named [e] = true) : Holds e ["name"] := by
  have hsome : (e.getObjectItem "name".toList).isSome := by
    rw [named, nameRead, lastRead, if_pos rfl, lastRead, Option.or_none] at h
    exact Option.isSome_of_isSome_bind h
  intro key hkey
  rwa [List.mem_singleton.mp hkey]

theorem holds_of_started (h : started [e] = true) : Holds e ["name", "start"] := by
  obtain ⟨hnamed, hstart⟩ := Bool.and_eq_true_iff.mp h
  exact holds_concat (holds_of_named hnamed) (isSome_of_addressRead (bne_iff_ne.mp hstart))

theorem holds_of_ended (h : ended [e] = true) : Holds e ["name", "start", "end"] := by
  obtain ⟨hstarted, hend⟩ := Bool.and_eq_true_iff.mp h
  exact holds_concat (holds_of_started hstarted) (isSome_of_addressRead (bne_iff_ne.mp hend))

theorem holds_of_complete (h : complete [e] = true) :
    Holds e ["name", "start", "end", "subnet"] := by
  obtain ⟨hended, hmask⟩ := Bool.and_eq_true_iff.mp h
  exact holds_concat (holds_of_ended hended) (isSome_of_addressRead (bne_iff_ne.mp hmask))

theorem crashes_of_alone (h : crashes [e] = true) : crashes (e :: before) = true := by
  rcases crashes_iff.mp h with ⟨hnamed, hbad⟩ | ⟨hstarted, hbad⟩ | ⟨hended, hbad⟩
  · exact crashes_iff.mpr (.inl ⟨(named_own (holds_of_named hnamed)).trans hnamed, hbad⟩)
  · exact crashes_iff.mpr (.inr (.inl
      ⟨(started_own (holds_of_started hstarted)).trans hstarted, hbad⟩))
  · exact crashes_iff.mpr (.inr (.inr ⟨(ended_own (holds_of_ended hended)).trans hended, hbad⟩))

/-- With all attributes an entry leaves nothing of the ones before it. -/
theorem leftover_own (h : complete [e] = true) : leftover (e :: before) = leftover [e] := by
  have hholds := holds_of_complete h
  have hended := ended_of_complete h
  have hstarted := started_of_ended hended
  have hnamed := named_of_started hstarted
  have hstart : startRead (e :: before) = startRead [e] :=
    addressRead_own (hholds "start" (by simp))
      ((named_own (hholds.of_subset (by simp))).trans hnamed) hnamed
  have hend : endRead (e :: before) = endRead [e] :=
    addressRead_own (hholds "end" (by simp))
      ((started_own (hholds.of_subset (by simp))).trans hstarted) hstarted
  have hmask : maskRead (e :: before) = maskRead [e] :=
    addressRead_own (hholds "subnet" (by simp))
      ((ended_own (hholds.of_subset (by simp))).trans hended) hended
  rw [leftover, leftover, nameRead_own (hholds.of_subset (by simp)), hstart, hend, hmask]

theorem outcomeRead_crash {es : List Json} (h : crashes es = true) :
    outcomeRead es = .error .nullDeref := by
  rw [outcomeRead, if_pos h]

theorem crashes_of_outcomeRead {es : List Json} {f : Fault} (h : outcomeRead es = .error f) :
    crashes es = true := by
  by_contra hcrash
  rw [outcomeRead, if_neg hcrash] at h
  cases h

theorem outcomeRead_complete (h : complete (e :: before) = true) :
    outcomeRead (e :: before) =
      .ok (poolAttempt (nameRead (e :: before), leftover (e :: before))) := by
  rw [outcomeRead, not_crashes_of_complete h, h]
  rfl

theorem complete_of_outcomeRead {es : List Json} {t : PoolAttempt}
    (h : outcomeRead es = .ok (some t)) : complete es = true := by
  rw [outcomeRead] at h
  by_contra hcomplete
  rw [if_neg hcomplete] at h
  split at h <;> cases h

/-- An entry that is treated as if it were alone uses only what it has. -/
theorem ownAttributes_of_outcome (h : outcomeRead (e :: before) = outcomeRead [e]) :
    OwnAttributes before e := by
  have halone (hcrash : crashes (e :: before) = true) :
      (named [e] = true ∧ notString (e.getObjectItem "start".toList) = true) ∨
      (started [e] = true ∧ notString (e.getObjectItem "end".toList) = true) ∨
      (ended [e] = true ∧ notString (e.getObjectItem "subnet".toList) = true) :=
    crashes_iff.mp (crashes_of_outcomeRead (h.symm.trans (outcomeRead_crash hcrash)))
  constructor
  case tried =>
    intro hcomplete
    obtain ⟨name, hname⟩ := Option.isSome_iff_exists.mp
      (named_of_started (started_of_ended (ended_of_complete hcomplete)))
    apply holds_of_complete
    apply complete_of_outcomeRead
    rw [← h, outcomeRead_complete hcomplete, hname]
    rfl
  case start =>
    intro hnamed hbad
    rcases halone (crashes_iff.mpr (.inl ⟨hnamed, hbad⟩)) with ⟨hone, -⟩ | ⟨hone, -⟩ | ⟨hone, -⟩
    · exact holds_of_named hone
    · exact holds_of_named (named_of_started hone)
    · exact holds_of_named (named_of_started (started_of_ended hone))
  case «end» =>
    intro hstarted hbad
    rcases halone (crashes_iff.mpr (.inr (.inl ⟨hstarted, hbad⟩))) with
      ⟨-, hstart⟩ | ⟨hone, -⟩ | ⟨hone, -⟩
    · rw [not_started_of_notString (named_of_started hstarted) hstart] at hstarted
      cases hstarted
    · exact holds_of_started hone
    · exact holds_of_started (started_of_ended hone)
  case subnet =>
    intro hended hbad
    have hstarted := started_of_ended hended
    rcases halone (crashes_iff.mpr (.inr (.inr ⟨hended, hbad⟩))) with
      ⟨-, hstart⟩ | ⟨-, hend⟩ | ⟨hone, -⟩
    · rw [not_started_of_notString (named_of_started hstarted) hstart] at hstarted
      cases hstarted
    · rw [not_ended_of_notString hstarted hend] at hended
      cases hended
    · exact holds_of_ended hone

theorem OwnAttributes.crashes_alone (h : OwnAttributes before e)
    (hcrash : crashes (e :: before) = true) : crashes [e] = true := by
  rw [crashes_iff] at hcrash ⊢
  rcases hcrash with ⟨hnamed, hbad⟩ | ⟨hstarted, hbad⟩ | ⟨hended, hbad⟩
  · exact .inl ⟨(named_own (h.start hnamed hbad)).symm.trans hnamed, hbad⟩
  · exact .inr (.inl ⟨(started_own (h.«end» hstarted hbad)).symm.trans hstarted, hbad⟩)
  · exact .inr (.inr ⟨(ended_own (h.subnet hended hbad)).symm.trans hended, hbad⟩)

/-- The values of earlier entries make no difference where they are not in use. -/
theorem outcomeRead_own_iff :
    outcomeRead (e :: before) = outcomeRead [e] ↔ OwnAttributes before e := by
  refine ⟨ownAttributes_of_outcome, fun h => ?_⟩
  by_cases hcrash : crashes (e :: before) = true
  · rw [outcomeRead_crash hcrash, outcomeRead_crash (h.crashes_alone hcrash)]
  by_cases hcomplete : complete (e :: before) = true
  · have hone := (complete_own (h.tried hcomplete)).symm.trans hcomplete
    rw [outcomeRead_complete hcomplete, outcomeRead_complete hone, leftover_own hone,
      nameRead_own ((h.tried hcomplete).of_subset (by simp))]
  · have hcrash' : ¬crashes [e] = true := fun hone => hcrash (crashes_of_alone hone)
    have hcomplete' : ¬complete [e] = true := fun hone =>
      hcomplete ((complete_own (holds_of_complete hone)).trans hone)
    rw [outcomeRead, outcomeRead, if_neg hcrash, if_neg hcrash', if_neg hcomplete,
      if_neg hcomplete']
    rfl

theorem poolOutcomes_alone_iff (before pools : List Json) :
    poolOutcomes (leftover before) pools = pools.map aloneOutcome ↔ Separate before pools := by
  induction pools generalizing before with
  | nil => exact iff_of_true rfl trivial
  | cons e pools ih =>
    rw [poolOutcomes_cons, List.map_cons, List.cons.injEq, aloneOutcome_eq, outcomeRead_own_iff,
      Separate]
    refine and_congr_right fun _ => ?_
    cases hcrash : crashes (e :: before) with
    | false =>
      rw [if_neg Bool.false_ne_true, ih]
      exact ⟨fun h => ⟨fun hfalse => absurd hfalse Bool.false_ne_true, h⟩, And.right⟩
    | true =>
      rw [if_pos rfl]
      constructor
      · intro h
        rw [List.map_eq_nil_iff.mp h.symm]
        exact ⟨fun _ => rfl, trivial⟩
      · rintro ⟨h, -⟩
        rw [h rfl]
        rfl

theorem addressRead_alone (h : reached [e] = true) :
    addressRead key reached [e] = addressOf (e.getObjectItem key) := by
  rw [addressRead_reached h, lastRead, Option.or_none]

/-- With an attribute that is missing, or that cannot be read, an entry alone yields no pool. -/
theorem Unusable.not_complete (h : Unusable e) : complete [e] = false := by
  rw [Bool.eq_false_iff]
  intro hcomplete
  obtain ⟨hended, hmask⟩ := Bool.and_eq_true_iff.mp hcomplete
  obtain ⟨hstarted, hend⟩ := Bool.and_eq_true_iff.mp hended
  obtain ⟨hnamed, hstart⟩ := Bool.and_eq_true_iff.mp hstarted
  rcases h with hname | hzero | hzero | hzero
  · rw [named, nameRead, lastRead, if_pos rfl, lastRead, Option.or_none] at hnamed
    rw [stringMember] at hname
    rw [hname] at hnamed
    cases hnamed
  · exact bne_iff_ne.mp hstart ((addressRead_alone hnamed).trans hzero)
  · exact bne_iff_ne.mp hend ((addressRead_alone hstarted).trans hzero)
  · exact bne_iff_ne.mp hmask ((addressRead_alone hended).trans hzero)

/-- The entries of a configuration file are independent of each other exactly when none of them
uses what earlier ones have left. -/
theorem pool_entries_independent_iff (pools : List Json) : Independent pools ↔ Separate [] pools := by
  have halone := poolOutcomes_alone_iff [] pools
  change poolOutcomes initialVariables pools = _ ↔ _ at halone
  refine ⟨fun h => halone.mp h.alone, fun h => ⟨halone.mpr h, ?_⟩⟩
  rw [halone.mpr h]
  intro p hp hunusable attempt hattempt
  have hone : p.2 = outcomeRead [p.1] := by
    have hzip : pools.zip (pools.map aloneOutcome) = pools.map fun e => (e, aloneOutcome e) := by
      simpa using List.zip_map' (f := id) (g := aloneOutcome) (l := pools)
    rw [hzip] at hp
    obtain ⟨e, -, rfl⟩ := List.mem_map.mp hp
    exact aloneOutcome_eq e
  have hcomplete := complete_of_outcomeRead (hone.symm.trans hattempt)
  rw [hunusable.not_complete] at hcomplete
  cases hcomplete

end Attributes

section Creation

variable {v : PoolVariables} {a : AddressAllocator} {pool : Json}

theorem loadPoolObject_createPool :
    loadPoolObject (v, a) pool =
      (loadPoolAttributes v pool).map fun r => (r.2, createPool a pool (poolAttempt r)) := by
  rw [loadPoolObject]
  cases loadPoolAttributes v pool with
  | error f => rfl
  | ok r =>
    obtain ⟨name, v'⟩ := r
    cases name with
    | none => rfl
    | some name =>
      change (match addressPoolNew name v'.poolStart v'.poolEnd v'.poolMask with
        | none => _
        | some newPool => _) = Except.ok (v', createPool a pool (some ⟨name, _, _, _⟩))
      rw [createPool, Option.bind_some]
      cases addressPoolNew name v'.poolStart v'.poolEnd v'.poolMask with
      | none => rfl
      | some newPool =>
        dsimp only
        split <;> rfl

/-- The attempts are all that the loop hands to the allocator. -/
theorem configLoadPoolsConfig_outcomes (poolsConfig : Json) :
    configLoadPoolsConfig a (some poolsConfig) =
      (poolsConfig.children.zip (poolOutcomes initialVariables poolsConfig.children)).foldlM
        (fun a p => p.2.map (createPool a p.1)) a := by
  have hrun (pools : List Json) (v : PoolVariables) (a : AddressAllocator) :
      (pools.foldlM loadPoolObject (v, a)).map Prod.snd =
        (pools.zip (poolOutcomes v pools)).foldlM (fun a p => p.2.map (createPool a p.1)) a := by
    induction pools generalizing v a with
    | nil => rfl
    | cons pool pools ih =>
      rw [List.foldlM_cons, loadPoolObject_createPool, poolOutcomes]
      cases loadPoolAttributes v pool with
      | error f => rfl
      | ok r => exact ih r.2 (createPool a pool (poolAttempt r))
  rw [← hrun, configLoadPoolsConfig]
  change poolsConfig.children.foldlM loadPoolObject (initialVariables, a) >>= _ = _
  cases poolsConfig.children.foldlM loadPoolObject (initialVariables, a) <;> rfl

end Creation

/-- A pool, and an entry without a range behind it. -/
def shadowedPools : List Json :=
  [.object [("name".toList, .string "OFFICE".toList), ("start".toList, .string "192.168.1.10".toList),
      ("end".toList, .string "192.168.1.20".toList), ("subnet".toList, .string "255.255.255.0".toList)],
    .object [("name".toList, .string "LAN".toList), ("subnet".toList, .string "255.255.255.0".toList)]]

theorem shadowedPools_dependent : ¬Independent shadowedPools := by
  intro h
  have hdiffer : poolOutcomes initialVariables shadowedPools ≠ shadowedPools.map aloneOutcome := by
    decide +kernel
  exact hdiffer h.alone

end DHCPServer
