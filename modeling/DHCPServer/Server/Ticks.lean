import DHCPServer.Server.Effects

namespace DHCPServer

/-- Several addresses are given back one after the other. -/
def releaseAll (a : AddressAllocator) (xs : List UInt32) : AddressAllocator :=
  xs.foldl (fun a x => (allocatorReleaseAddress a x).2) a

/-- The transaction's timer runs out at this update. -/
def expires (now : UInt32) (t : Transaction) : Bool :=
  t.timer.isRunning && (timerUpdate now t.timer).1

/-- The address that the timeout of a transaction gives back. -/
def returnedAddress (t : Transaction) : Option UInt32 :=
  match transSearchFor t MsgType.offer with
  | none => none
  | some offer => if (transSearchFor t MsgType.ack).isSome then none else some offer.yiaddr

/-- The addresses given back by the transactions that time out, in slot order. -/
def returnedAddresses (now : UInt32) (cache : TransactionCache) : List UInt32 :=
  (cache.filter (expires now)).filterMap returnedAddress

/-- What an update makes of one slot. -/
def updatedSlot (now : UInt32) (t : Transaction) : Transaction :=
  if expires now t then transClear now (t.setTimer (timerUpdate now t.timer).2)
  else t.setTimer (timerUpdate now t.timer).2

section Transactions

variable {now : UInt32} {t : Transaction} {cache : TransactionCache}

/-- The update of the cache in closed form. -/
theorem updateTransactions_eq (now : UInt32) (a : AddressAllocator) (cache : TransactionCache) :
    updateTransactions now a cache =
      (releaseAll a (returnedAddresses now cache), cache.map (updatedSlot now)) := by
  induction cache generalizing a with
  | nil => rfl
  | cons t ts ih =>
    cases hr : t.timer.isRunning with
    | false =>
      have he : expires now t = false := by simp [expires, hr]
      have hstop : (timerUpdate now t.timer).2 = t.timer := by simp [timerUpdate, hr]
      have hslot : updatedSlot now t = t := by
        simp only [updatedSlot, he, hstop, Bool.false_eq_true, if_false]
        rfl
      simp [updateTransactions, hr, ih, hslot, returnedAddresses, he]
    | true =>
      cases hf : (timerUpdate now t.timer).1 with
      | false =>
        have he : expires now t = false := by simp [expires, hf]
        simp [updateTransactions, hr, transUpdateTimer, hf, ih, updatedSlot, returnedAddresses, he]
      | true =>
        have he : expires now t = true := by simp [expires, hr, hf]
        have hsearch : ∀ type, transSearchFor (t.setTimer (timerUpdate now t.timer).2) type =
            transSearchFor t type := fun _ => rfl
        simp only [updateTransactions, hr, if_true, transUpdateTimer, hf, transTimerCbClear, hsearch,
          ih, List.map_cons, updatedSlot, he, returnedAddresses, List.filter_cons_of_pos he,
          List.filterMap_cons, returnedAddress, Prod.mk.injEq, and_true]
        cases transSearchFor t MsgType.offer with
        | none => rfl
        | some offer =>
          cases transSearchFor t MsgType.ack with
          | none => rfl
          | some ack => rfl

theorem updatedSlot_messages :
    (updatedSlot now t).messages = if expires now t then [] else t.messages := by
  unfold updatedSlot
  split <;> rfl

theorem updatedSlot_isRunning (now : UInt32) (t : Transaction) :
    (updatedSlot now t).timer.isRunning = (t.timer.isRunning && !expires now t) := by
  unfold updatedSlot
  cases he : expires now t with
  | true => simp
  | false =>
    cases hr : t.timer.isRunning with
    | false => simp [Transaction.setTimer, timerUpdate, hr]
    | true =>
      have hf : (timerUpdate now t.timer).1 = false := by simpa [expires, hr] using he
      simpa [Transaction.setTimer, hr] using timerUpdate_isRunning hf

theorem updatedSlot_sound (ht : t.Sound) : (updatedSlot now t).Sound := by
  have hrun := updatedSlot_isRunning now t
  unfold updatedSlot at hrun ⊢
  cases he : expires now t with
  | true => exact transClear_sound now (timerUpdate_type.trans ht.once)
  | false =>
    refine ⟨timerUpdate_type.trans ht.once, ?_, ht.xids⟩
    intro hi
    simp only [he, Bool.false_eq_true, if_false, Bool.not_false, Bool.and_true] at hrun
    simp only [Bool.false_eq_true, if_false] at hi
    exact ht.idle (hrun.symm.trans hi)

theorem update_sound (hs : cache.Sound) : TransactionCache.Sound (cache.map (updatedSlot now)) := by
  intro t ht
  obtain ⟨t₀, ht₀, rfl⟩ := List.mem_map.mp ht
  exact updatedSlot_sound (hs t₀ ht₀)

theorem update_all {Q : Message → Prop} (ha : cache.All Q) :
    TransactionCache.All (cache.map (updatedSlot now)) Q := by
  intro t ht m hm
  obtain ⟨t₀, ht₀, rfl⟩ := List.mem_map.mp ht
  rw [updatedSlot_messages] at hm
  split at hm
  · cases hm
  · exact ha t₀ ht₀ m hm

/-- What an update leaves in the cache: the messages of the transactions that go on. -/
theorem update_holds {m : Message} :
    TransactionCache.Holds (cache.map (updatedSlot now)) m ↔
      ∃ t ∈ cache, t.timer.isRunning = true ∧ expires now t = false ∧ m ∈ t.messages := by
  constructor
  · intro h
    obtain ⟨t, ht, hr, hm⟩ := h
    obtain ⟨t₀, ht₀, rfl⟩ := List.mem_map.mp ht
    rw [updatedSlot_isRunning, Bool.and_eq_true, Bool.not_eq_true'] at hr
    rw [updatedSlot_messages, hr.2] at hm
    exact ⟨t₀, ht₀, hr.1, hr.2, by simpa using hm⟩
  · intro h
    obtain ⟨t, ht, hr, he, hm⟩ := h
    refine ⟨updatedSlot now t, List.mem_map_of_mem ht, ?_, ?_⟩
    · rw [updatedSlot_isRunning, hr, he]
      rfl
    · rw [updatedSlot_messages, he]
      simpa using hm

end Transactions

section Releases

variable (a : AddressAllocator) (xs : List UInt32)

theorem releaseAll_isAllocated (y : UInt32) :
    (releaseAll a xs).isAllocated y = (a.isAllocated y && !xs.contains y) := by
  induction xs generalizing a with
  | nil => simp [releaseAll]
  | cons x xs ih =>
    have hcons : releaseAll a (x :: xs) = releaseAll (allocatorReleaseAddress a x).2 xs := rfl
    rw [hcons, ih, AddressAllocator.release_isAllocated, List.contains_cons, Bool.not_or,
      Bool.and_assoc]
    rfl

theorem releaseAll_shape : (releaseAll a xs).shape = a.shape := by
  induction xs generalizing a with
  | nil => rfl
  | cons x xs ih => exact (ih _).trans (AddressAllocator.release_shape a x)

end Releases

section Sweeping

variable {env : Env} {P : AddressAllocator → LeaseStore → Prop}

/-- One pass of the expiry check in closed form. -/
theorem checkLeaseAt_eq (env : Env) (name : CString) (w : Sweep) (x : UInt32) :
    checkLeaseAt env name w x =
      if !allocatorIsAddressAvailable w.allocator x &&
          ((w.leases name).find? (·.address == x)).any (fun r => decide (r.leaseExpire ≤ env.now)) &&
          env.sweeps name x != .notOpened then
        ⟨(allocatorReleaseAddress w.allocator x).2,
          (leaseRemove (env.sweeps name x) w.leases x name).2, w.released + 1⟩
      else w := by
  unfold checkLeaseAt
  cases hav : allocatorIsAddressAvailable w.allocator x with
  | true => rfl
  | false =>
    rw [if_neg Bool.false_ne_true]
    unfold leaseRetrieve
    cases hr : (w.leases name).find? (·.address == x) with
    | none => rfl
    | some r =>
      have hx : r.address = x := by simpa using List.find?_some hr
      have hany : (w.leases name).any (·.address == x) = true :=
        List.any_eq_true.mpr ⟨r, List.mem_of_find?_eq_some hr, by simp [hx]⟩
      by_cases hexp : env.now < r.leaseExpire
      · simp [hexp]
      · -- the record has run out, and it depends on the file what becomes of it
        cases hrew : env.sweeps name x with
        | notOpened => simp [hexp, leaseRemove]
        | done | notTruncated | notWritten =>
          simp [hexp, UInt32.not_lt.mp hexp, leaseRemove, hx, hany]

/-- One pass of the expiry check does nothing, or works on the record of an address whose file can
be opened and gives the address back. -/
theorem checkLeaseAt_cases (env : Env) (name : CString) (w : Sweep) (x : UInt32) :
    ((checkLeaseAt env name w x).allocator = w.allocator ∧
      (checkLeaseAt env name w x).leases = w.leases) ∨
    ∃ r, (w.leases name).find? (·.address == x) = some r ∧ r.leaseExpire ≤ env.now ∧
      env.sweeps name x ≠ .notOpened ∧
      (checkLeaseAt env name w x).allocator = (allocatorReleaseAddress w.allocator x).2 ∧
      (checkLeaseAt env name w x).leases = (leaseRemove (env.sweeps name x) w.leases x name).2 := by
  rw [checkLeaseAt_eq]
  split
  · rename_i hdue
    rw [Bool.and_eq_true, Bool.and_eq_true, Option.any_eq_true] at hdue
    obtain ⟨⟨-, r, hr, hexp⟩, hopen⟩ := hdue
    exact .inr ⟨r, hr, by simpa using hexp, by simpa using hopen, rfl, rfl⟩
  · exact .inl ⟨rfl, rfl⟩

/-- What every removal of the expiry check keeps, the whole check keeps. -/
theorem sweep_rule {s : Server} (h₀ : P s.allocator s.leases)
    (hstep : ∀ a l p x r, P a l → p ∈ s.allocator.addressPools →
      addressBelongsToPool p x = true → (l p.name).find? (·.address == x) = some r →
      r.leaseExpire ≤ env.now → env.sweeps p.name x ≠ .notOpened →
      P (allocatorReleaseAddress a x).2 (leaseRemove (env.sweeps p.name x) l x p.name).2) :
    P (checkLeaseExpirations env s).allocator (checkLeaseExpirations env s).leases := by
  have hpool : ∀ p ∈ s.allocator.addressPools, ∀ (xs : List UInt32),
      (∀ x ∈ xs, addressBelongsToPool p x = true) → ∀ w : Sweep, P w.allocator w.leases →
      P (xs.foldl (checkLeaseAt env p.name) w).allocator
        (xs.foldl (checkLeaseAt env p.name) w).leases := by
    intro p hp xs
    induction xs with
    | nil => exact fun _ w hw => hw
    | cons x xs ih =>
      intro hxs w hw
      refine ih (fun y hy => hxs y (List.mem_cons_of_mem _ hy)) _ ?_
      rcases checkLeaseAt_cases env p.name w x with ⟨ha, hl⟩ | ⟨r, hr, hexp, hopen, ha, hl⟩
      · rw [ha, hl]
        exact hw
      · rw [ha, hl]
        exact hstep _ _ p x r hw hp (hxs x List.mem_cons_self) hr hexp hopen
  have hpools : ∀ (ps : List AddressPool), (∀ p ∈ ps, p ∈ s.allocator.addressPools) →
      ∀ w : Sweep, P w.allocator w.leases →
      P (ps.foldl (checkLease env) w).allocator (ps.foldl (checkLease env) w).leases := by
    intro ps
    induction ps with
    | nil => exact fun _ w hw => hw
    | cons p ps ih =>
      intro hmem w hw
      have hin : ∀ x ∈ p.checkedAddresses, addressBelongsToPool p x = true :=
        fun x hx => AddressPool.mem_addresses.mp (List.mem_of_mem_dropLast hx)
      exact ih (fun q hq => hmem q (List.mem_cons_of_mem _ hq)) _
        (hpool p (hmem p List.mem_cons_self) p.checkedAddresses hin w hw)
  exact hpools _ (fun _ h => h) ⟨s.allocator, s.leases, 0⟩ h₀

end Sweeping

/-- The server after the transactions have been updated and before the expiry check. -/
def afterTransactions (now : UInt32) (s : Server) : Server :=
  ((s.setAllocator (releaseAll s.allocator (returnedAddresses now s.transCache))).setTransCache
    (s.transCache.map (updatedSlot now))).setCheck (timerUpdate now s.leaseExpirationCheck).2

/-- The expiry check is due. -/
def checkDue (now : UInt32) (s : Server) : Bool := (timerUpdate now s.leaseExpirationCheck).1

theorem updateTimers_eq (env : Env) (s : Server) :
    updateTimers env s =
      if checkDue env.now s then
        ((afterTransactions env.now s).setAllocator
          (checkLeaseExpirations env (afterTransactions env.now s)).allocator).setLeases
          (checkLeaseExpirations env (afterTransactions env.now s)).leases
      else afterTransactions env.now s := by
  unfold updateTimers
  rw [updateTransactions_eq]
  rfl

/-- The rule for a pass of the timers: what the timeouts establish and every removal of the
expiry check keeps holds of the allocator and the leases afterwards. -/
theorem updateTimers_rule {env : Env} {s : Server}
    {P : AddressAllocator → LeaseStore → Prop}
    (h₀ : P (releaseAll s.allocator (returnedAddresses env.now s.transCache)) s.leases)
    (hstep : checkDue env.now s = true → ∀ a l p x r, P a l → p ∈ s.allocator.addressPools →
      addressBelongsToPool p x = true → (l p.name).find? (·.address == x) = some r →
      r.leaseExpire ≤ env.now → env.sweeps p.name x ≠ .notOpened →
      P (allocatorReleaseAddress a x).2 (leaseRemove (env.sweeps p.name x) l x p.name).2) :
    P (updateTimers env s).allocator (updateTimers env s).leases := by
  rw [updateTimers_eq]
  split
  · rename_i hdue
    refine sweep_rule (s := afterTransactions env.now s) h₀ ?_
    intro a l p x r hP hp
    -- the pools have kept their names
    obtain ⟨q, hq, hshape⟩ := AddressAllocator.exists_same_shape (releaseAll_shape _ _) hp
    have hname : q.name = p.name := congrArg Prod.fst hshape
    rw [← hname, ← AddressPool.belongs_of_shape hshape]
    exact hstep hdue a l q x r hP hq
  · exact h₀

theorem updateTimers_transCache (env : Env) (s : Server) :
    (updateTimers env s).transCache = s.transCache.map (updatedSlot env.now) := by
  rw [updateTimers_eq]
  split <;> rfl

theorem updateTimers_sent (env : Env) (s : Server) : (updateTimers env s).sent = s.sent := by
  rw [updateTimers_eq]
  split <;> rfl

theorem updateTimers_shape (env : Env) (s : Server) :
    (updateTimers env s).allocator.shape = s.allocator.shape :=
  updateTimers_rule (P := fun a _ => a.shape = s.allocator.shape) (releaseAll_shape _ _)
    fun _ a _ _ x _ h _ _ _ _ _ => (AddressAllocator.release_shape a x).trans h

/-- The timers only take records away. -/
theorem updateTimers_subset {env : Env} {s : Server} {n : CString} {r : LeaseRecord}
    (h : r ∈ (updateTimers env s).leases n) : r ∈ s.leases n := by
  refine updateTimers_rule (P := fun _ l => ∀ n, ∀ r ∈ l n, r ∈ s.leases n) ?_ ?_ n r h
  · exact fun _ _ h => h
  · intro _ a l p x r hl _ _ _ _ _ n r' hr'
    exact hl n r' (mem_leaseRemove hr')

end DHCPServer
