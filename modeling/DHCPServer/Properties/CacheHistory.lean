import DHCPServer.Server.Ticks

namespace DHCPServer

/-- What is done to a transaction cache from outside. -/
inductive CacheOp where
  | add (now : UInt32) (message : Message)
  | update (now : UInt32) (slot : Nat)
  | purge (now : UInt32)

/-- What has happened to the transactions: a message was taken, a transaction was cleared. -/
inductive CacheEvent where
  | added (m : Message)
  | closed (xid : UInt32)

/-- The cache, the allocator that a timeout gives addresses back to, and all that has happened
so far, oldest first. -/
structure CacheRun where
  allocator : AddressAllocator
  cache : TransactionCache
  events : List CacheEvent

namespace CacheRun

def step (s : CacheRun) : CacheOp → CacheRun
  | .add now message =>
    match transCacheAddMessage now s.cache message with
    | (true, cache) => ⟨s.allocator, cache, s.events ++ [.added (message.setTime now)]⟩
    | (false, cache) => ⟨s.allocator, cache, s.events⟩
  | .update now slot =>
    match s.cache[slot]? with
    | none => s
    | some t =>
      let (a, t') := transUpdateTimer now s.allocator t
      ⟨a, s.cache.set slot t', s.events ++ if expires now t then [.closed t.xid] else []⟩
  | .purge now =>
    ⟨s.allocator, transCachePurge now s.cache, s.events ++ s.cache.map fun t => .closed t.xid⟩

/-- The server's cache when it is made, and after a sequence of operations. -/
def start (a : AddressAllocator) (now : UInt32) (size : Nat) (time : UInt32) : CacheRun :=
  ⟨a, transCacheNew now size time, []⟩

def run (s : CacheRun) (ops : List CacheOp) : CacheRun := ops.foldl step s

end CacheRun

/-- One event's effect on the messages that have come in under an xid. -/
def CacheEvent.record (x : UInt32) (l : List Message) : CacheEvent → List Message
  | .added m => if m.xid = x then l ++ [m] else l
  | .closed y => if y = x then [] else l

/-- The messages added under an xid since its transaction was opened, in order of arrival. -/
def addedSinceOpened (x : UInt32) (events : List CacheEvent) : List Message :=
  events.foldl (CacheEvent.record x) []

/-- An operation as the server issues it: no transaction has the xid 0. -/
def CacheOp.Proper : CacheOp → Prop
  | .add _ message => message.xid ≠ 0
  | .update _ _ | .purge _ => True

/-- Two slots do not stand for the same transaction. -/
def Transaction.Apart (t t' : Transaction) : Prop := t.xid = t'.xid → t.xid = 0

/-- What every sequence of operations keeps. -/
structure CacheInvariant (cache : TransactionCache) (events : List CacheEvent) : Prop where
  sound : cache.Sound
  live : ∀ t ∈ cache, t.timer.isRunning = true → t.xid ≠ 0 ∧ t.messages ≠ [] ∧
    t.messages = addedSinceOpened t.xid events
  distinct : cache.Pairwise Transaction.Apart
  closed : ∀ x, x ≠ 0 → (∀ t ∈ cache, t.xid ≠ x) → addedSinceOpened x events = []

section History

variable {x : UInt32} {events : List CacheEvent}

theorem addedSinceOpened_snoc (e : CacheEvent) :
    addedSinceOpened x (events ++ [e]) = e.record x (addedSinceOpened x events) := by
  rw [addedSinceOpened, List.foldl_append]
  rfl

theorem addedSinceOpened_other {m : Message} (h : m.xid ≠ x) :
    addedSinceOpened x (events ++ [.added m]) = addedSinceOpened x events := by
  rw [addedSinceOpened_snoc, CacheEvent.record, if_neg h]

/-- Closing a transaction forgets its messages. -/
theorem addedSinceOpened_closed (x : UInt32) (events : List CacheEvent) (xids : List UInt32) :
    addedSinceOpened x (events ++ xids.map .closed) =
      if x ∈ xids then [] else addedSinceOpened x events := by
  induction xids generalizing events with
  | nil => simp
  | cons y ys ih =>
    rw [List.map_cons, List.append_cons, ih, addedSinceOpened_snoc, CacheEvent.record]
    by_cases hy : y = x
    · simp [hy]
    · simp [hy, Ne.symm hy]

end History

section Steps

variable {cache : TransactionCache} {pre post : List Transaction} {t t' : Transaction}
  {events events' : List CacheEvent} {now : UInt32} {m : Message}

theorem apart_symm (h : t.Apart t') : t'.Apart t := by
  intro hx
  rw [hx]
  exact h hx.symm

/-- A slot with an xid is running. -/
theorem Transaction.Sound.running (hs : t.Sound) (hx : t.xid ≠ 0) : t.timer.isRunning = true := by
  by_contra hstop
  exact hx (hs.idle (by simpa using hstop)).2.1

/-- One slot is changed: it is enough to look at what the change records for it, and that the
other transactions neither have its xid nor lose their record. -/
theorem CacheInvariant.replace (hi : CacheInvariant (pre ++ t :: post) events) (hs : t'.Sound)
    (hlive : t'.timer.isRunning = true → t'.xid ≠ 0 ∧ t'.messages ≠ [] ∧
      t'.messages = addedSinceOpened t'.xid events')
    (hothers : ∀ q ∈ pre ++ post, q.xid ≠ 0 → q.xid ≠ t'.xid)
    (hrecord : ∀ x, x ≠ 0 → x ≠ t'.xid → addedSinceOpened x events' =
      if x = t.xid then [] else addedSinceOpened x events) :
    CacheInvariant (pre ++ t' :: post) events' := by
  have hmem : ∀ q, q ∈ pre ++ t :: post ↔ q = t ∨ q ∈ pre ++ post := fun q =>
    List.perm_middle.mem_iff.trans List.mem_cons
  have hmem' : ∀ q, q ∈ pre ++ t' :: post ↔ q = t' ∨ q ∈ pre ++ post := fun q =>
    List.perm_middle.mem_iff.trans List.mem_cons
  have hpair := (List.pairwise_middle apart_symm).mp hi.distinct
  obtain ⟨hapart, hrest⟩ := List.pairwise_cons.mp hpair
  constructor
  · intro q hq
    rcases (hmem' q).mp hq with rfl | hq
    · exact hs
    · exact hi.sound q ((hmem q).mpr (.inr hq))
  · intro q hq hrun
    rcases (hmem' q).mp hq with rfl | hq
    · exact hlive hrun
    · obtain ⟨hx, hne, hmsgs⟩ := hi.live q ((hmem q).mpr (.inr hq)) hrun
      have hqt : q.xid ≠ t.xid := fun h => hx (h.trans (hapart q hq h.symm))
      rw [hrecord q.xid hx (hothers q hq hx), if_neg hqt]
      exact ⟨hx, hne, hmsgs⟩
  · refine (List.pairwise_middle apart_symm).mpr (List.pairwise_cons.mpr ⟨?_, hrest⟩)
    intro q hq hx
    by_contra h0
    exact hothers q hq (hx ▸ h0) hx.symm
  · intro x hx hno
    rw [hrecord x hx (hno t' (by simp)).symm]
    split
    · rfl
    · rename_i hxt
      apply hi.closed x hx
      intro q hq
      rcases (hmem q).mp hq with rfl | hq
      · exact Ne.symm hxt
      · exact hno q ((hmem' q).mpr (.inr hq))

/-- A message that is taken joins its transaction, or opens one in a slot that was idle. -/
theorem CacheInvariant.add {cache' : TransactionCache} (hi : CacheInvariant cache events)
    (ha : cache.Adds cache' m) (hm : m.xid ≠ 0) :
    CacheInvariant cache' (events ++ [.added m]) := by
  obtain ⟨pre, t, t', post, rfl, rfl, hmsgs, hxid, hrun, hsound, -, hor⟩ := ha.adds
  have ht : t ∈ pre ++ t :: post := by simp
  have hpair := (List.pairwise_middle apart_symm).mp hi.distinct
  have hapart := (List.pairwise_cons.mp hpair).1
  have hbefore : t.messages = addedSinceOpened m.xid events := by
    rcases hor with htx | ⟨hidle, hno⟩
    · have htx0 : t.xid ≠ 0 := htx ▸ hm
      have hlive := hi.live t ht ((hi.sound t ht).running htx0)
      rw [← htx]
      exact hlive.2.2
    · rw [hi.closed m.xid hm hno]
      exact ((hi.sound t ht).idle hidle).1
  refine hi.replace hsound ?_ ?_ ?_
  · intro _
    refine ⟨hxid ▸ hm, by simp [hmsgs], ?_⟩
    rw [hmsgs, hxid, addedSinceOpened_snoc, CacheEvent.record, if_pos rfl, hbefore]
  · intro q hq hx
    rw [hxid]
    rcases hor with htx | ⟨-, hno⟩
    · intro hqx
      exact hx (hqx.trans (htx.symm.trans (hapart q hq (htx.trans hqx.symm))))
    · exact hno q (List.perm_middle.mem_iff.mpr (List.mem_cons_of_mem _ hq))
  · intro x hx hxm
    rw [hxid] at hxm
    rw [addedSinceOpened_other hxm.symm]
    split
    · rename_i hxt
      rcases hor with htx | ⟨hidle, -⟩
      · exact absurd (hxt.trans htx) hxm
      · exact absurd (hxt.trans ((hi.sound t ht).idle hidle).2.1) hx
    · rfl

/-- `trans_update_timer` on one slot, whatever the allocator. -/
theorem transUpdateTimer_slot (now : UInt32) (a : AddressAllocator) (t : Transaction) :
    (transUpdateTimer now a t).2 = updatedSlot now t := by
  unfold transUpdateTimer updatedSlot expires
  cases hr : t.timer.isRunning with
  | false =>
    have hstop : timerUpdate now t.timer = (false, t.timer) := by simp [timerUpdate, hr]
    simp [hstop]
  | true =>
    cases hf : (timerUpdate now t.timer).1 with
    | false => simp [hf]
    | true => simp [hf, transTimerCbClear]

/-- A timer update leaves its slot as it was, or closes it. -/
theorem CacheInvariant.update (hi : CacheInvariant (pre ++ t :: post) events) :
    CacheInvariant (pre ++ updatedSlot now t :: post)
      (events ++ if expires now t then [.closed t.xid] else []) := by
  have ht : t ∈ pre ++ t :: post := by simp
  have hpair := (List.pairwise_middle apart_symm).mp hi.distinct
  have hapart := (List.pairwise_cons.mp hpair).1
  have hrunning := updatedSlot_isRunning now t
  have hsound : (updatedSlot now t).Sound := updatedSlot_sound (hi.sound t ht)
  cases he : expires now t with
  | true =>
    have hxid : (updatedSlot now t).xid = 0 := by simp [updatedSlot, he]
    refine hi.replace hsound ?_ ?_ ?_
    · intro hrun
      simp [hrunning, he] at hrun
    · intro q _ hx
      rw [hxid]
      exact hx
    · intro x hx _
      have hone := addedSinceOpened_closed x events [t.xid]
      simpa using hone
  | false =>
    have hslot : updatedSlot now t = t.setTimer (timerUpdate now t.timer).2 := by
      simp [updatedSlot, he]
    have hxid : (updatedSlot now t).xid = t.xid := by rw [hslot]; rfl
    have hmsgs : (updatedSlot now t).messages = t.messages := by rw [hslot]; rfl
    simp only [Bool.false_eq_true, if_false, List.append_nil]
    refine hi.replace hsound ?_ ?_ ?_
    · intro hrun
      rw [hxid, hmsgs]
      apply hi.live t ht
      simpa [hrunning, he] using hrun
    · intro q hq hx
      rw [hxid]
      exact fun h => hx (h.trans (hapart q hq h.symm))
    · intro x _ hxt
      rw [hxid] at hxt
      rw [if_neg hxt]

theorem CacheInvariant.purge (hi : CacheInvariant cache events) :
    CacheInvariant (transCachePurge now cache)
      (events ++ cache.map fun t => .closed t.xid) := by
  have hslot : ∀ q ∈ transCachePurge now cache, ∃ t ∈ cache, q = transClear now t := by
    intro q hq
    obtain ⟨t, ht, rfl⟩ := List.mem_map.mp hq
    exact ⟨t, ht, rfl⟩
  constructor
  · intro q hq
    obtain ⟨t, ht, rfl⟩ := hslot q hq
    exact transClear_sound now (hi.sound t ht).once
  · intro q hq hrun
    obtain ⟨t, ht, rfl⟩ := hslot q hq
    simp at hrun
  · rw [transCachePurge, List.pairwise_map]
    exact List.pairwise_of_forall fun _ _ _ => rfl
  · intro x hx _
    have hall := addedSinceOpened_closed x events (cache.map Transaction.xid)
    rw [List.map_map] at hall
    refine hall.trans ?_
    split
    · rfl
    · rename_i hno
      apply hi.closed x hx
      intro t ht h
      exact hno (List.mem_map.mpr ⟨t, ht, h⟩)

/-- The step lemma. -/
theorem CacheRun.step_invariant {s : CacheRun} {op : CacheOp} (hop : op.Proper)
    (hi : CacheInvariant s.cache s.events) :
    CacheInvariant (s.step op).cache (s.step op).events := by
  cases op with
  | add now message =>
    rcases TransactionCache.add_cases now hi.sound message with ⟨hadd, -⟩ | ⟨cache', hadd, hadds⟩
    · simpa only [CacheRun.step, hadd] using hi
    · simpa only [CacheRun.step, hadd] using hi.add hadds hop
  | update now slot =>
    cases hslot : s.cache[slot]? with
    | none => simpa only [CacheRun.step, hslot] using hi
    | some t =>
      obtain ⟨hlt, hget⟩ := List.getElem?_eq_some_iff.mp hslot
      have hsplit : s.cache = s.cache.take slot ++ t :: s.cache.drop (slot + 1) := by
        rw [← hget, List.getElem_cons_drop, List.take_append_drop]
      rw [hsplit] at hi
      simp only [CacheRun.step, hslot, transUpdateTimer_slot, List.set_eq_take_append_cons_drop, hlt, if_true]
      exact hi.update
  | purge now => exact hi.purge

/-- The run lemma. -/
theorem CacheRun.run_invariant {s : CacheRun} {ops : List CacheOp} (hops : ∀ op ∈ ops, op.Proper)
    (hi : CacheInvariant s.cache s.events) :
    CacheInvariant (s.run ops).cache (s.run ops).events := by
  induction ops generalizing s with
  | nil => exact hi
  | cons op ops ih =>
    exact ih (fun o ho => hops o (by simp [ho])) (step_invariant (hops op (by simp)) hi)

theorem CacheRun.start_invariant (a : AddressAllocator) (now : UInt32) (size : Nat)
    (time : UInt32) : CacheInvariant (start a now size time).cache (start a now size time).events := by
  have hslot : ∀ t ∈ transCacheNew now size time, t = transNew now time :=
    fun t ht => (List.mem_replicate.mp ht).2
  constructor
  · exact TransactionCache.sound_new now size time
  · intro t ht hrun
    rw [hslot t ht] at hrun
    simp [transNew] at hrun
  · exact List.pairwise_replicate.mpr (.inr fun _ => rfl)
  · intro x _ _
    rfl

end Steps

/-- What holds of a cache after a sequence of operations: a slot runs exactly when it holds a
message and exactly when it has an xid, running slots have different xids, messages carry the xid
of their slot, the slot found under a live xid holds the messages added under it since it was
opened, and an addition fails, changing nothing, exactly when no slot has the xid and all run. -/
structure CacheLaws (cache : TransactionCache) (events : List CacheEvent) : Prop where
  running : ∀ t ∈ cache, (t.timer.isRunning = true ↔ t.messages ≠ []) ∧
    (t.messages ≠ [] ↔ t.xid ≠ 0)
  distinct : ∀ (i j : Nat) (t t' : Transaction), cache[i]? = some t → cache[j]? = some t' →
    t.timer.isRunning = true → t'.timer.isRunning = true → t.xid = t'.xid → i = j
  xids : ∀ t ∈ cache, ∀ m ∈ t.messages, m.xid = t.xid
  retrieved : ∀ x, (∃ t ∈ cache, t.timer.isRunning = true ∧ t.xid = x) →
    ∃ t, transCacheRetrieveTransaction cache x = some t ∧ t.timer.isRunning = true ∧
      t.messages = addedSinceOpened x events
  full : ∀ now m, ((transCacheAddMessage now cache m).1 = false ↔
      (∀ t ∈ cache, t.xid ≠ m.xid) ∧ ∀ t ∈ cache, t.timer.isRunning = true) ∧
    ((transCacheAddMessage now cache m).1 = false → (transCacheAddMessage now cache m).2 = cache)

section Laws

variable {cache : TransactionCache} {events : List CacheEvent}

theorem add_fails_iff (hs : cache.Sound) (now : UInt32) (m : Message) :
    ((transCacheAddMessage now cache m).1 = false ↔
      (∀ t ∈ cache, t.xid ≠ m.xid) ∧ ∀ t ∈ cache, t.timer.isRunning = true) ∧
    ((transCacheAddMessage now cache m).1 = false →
      (transCacheAddMessage now cache m).2 = cache) := by
  rcases TransactionCache.add_cases now hs m with ⟨hadd, hfull⟩ | ⟨cache', hadd, hadds⟩
  · rw [hadd]
    exact ⟨⟨fun _ => ⟨fun t ht => (hfull t ht).1, fun t ht => (hfull t ht).2⟩, fun _ => rfl⟩,
      fun _ => rfl⟩
  · rw [hadd]
    refine ⟨⟨fun h => (Bool.noConfusion h), ?_⟩, fun h => Bool.noConfusion h⟩
    intro h
    obtain ⟨hno, hrun⟩ := h
    obtain ⟨pre, t, t', post, rfl, -, -, -, -, -, -, hor⟩ := hadds.adds
    have ht : t ∈ pre ++ t :: post := by simp
    rcases hor with hx | ⟨hidle, -⟩
    · exact absurd hx (hno t ht)
    · rw [hrun t ht] at hidle
      cases hidle

theorem CacheInvariant.laws (hi : CacheInvariant cache events) : CacheLaws cache events := by
  have hidle : ∀ t ∈ cache, ¬t.timer.isRunning = true → t.messages = [] ∧ t.xid = 0 := by
    intro t ht hstop
    have h := (hi.sound t ht).idle (by simpa using hstop)
    exact ⟨h.1, h.2.1⟩
  constructor
  · intro t ht
    by_cases hrun : t.timer.isRunning = true
    · obtain ⟨hx, hne, -⟩ := hi.live t ht hrun
      simp [hrun, hx, hne]
    · obtain ⟨hnil, hx⟩ := hidle t ht hrun
      simp [hrun, hnil, hx]
  · intro i j t t' ht ht' hrun hrun' hx
    obtain ⟨hlt, rfl⟩ := List.getElem?_eq_some_iff.mp ht
    obtain ⟨hlt', rfl⟩ := List.getElem?_eq_some_iff.mp ht'
    have hpair := List.pairwise_iff_getElem.mp hi.distinct
    have hne := (hi.live _ (List.getElem_mem hlt) hrun).1
    rcases Nat.lt_trichotomy i j with hij | hij | hij
    · exact absurd (hpair i j hlt hlt' hij hx) hne
    · exact hij
    · exact absurd (hx.trans (hpair j i hlt' hlt hij hx.symm)) hne
  · exact fun t ht => (hi.sound t ht).xids
  · intro x hx
    obtain ⟨t₀, ht₀, hrun₀, hx₀⟩ := hx
    have hne : x ≠ 0 := hx₀ ▸ (hi.live t₀ ht₀ hrun₀).1
    have hfound : (transCacheRetrieveTransaction cache x).isSome :=
      List.find?_isSome.mpr ⟨t₀, ht₀, by simpa using hx₀⟩
    obtain ⟨t, ht⟩ := Option.isSome_iff_exists.mp hfound
    have hxid : t.xid = x := by simpa using List.find?_some ht
    have hmem := List.mem_of_find?_eq_some ht
    have hrun := (hi.sound t hmem).running (hxid ▸ hne)
    refine ⟨t, ht, hrun, ?_⟩
    rw [← hxid]
    exact (hi.live t hmem hrun).2.2
  · exact add_fails_iff hi.sound

end Laws

/-- The laws hold of a cache of any size after any sequence of additions with nonzero xids, timer
updates of any slots at any times, and purges. -/
theorem transactionCache_laws (a : AddressAllocator) (now : UInt32) (size : Nat) (time : UInt32)
    (ops : List CacheOp) (hops : ∀ op ∈ ops, op.Proper) :
    CacheLaws ((CacheRun.start a now size time).run ops).cache
      ((CacheRun.start a now size time).run ops).events :=
  (CacheRun.run_invariant hops (CacheRun.start_invariant a now size time)).laws

/-- Two transactions in a cache of two slots, a third that finds no room, and a timeout that
makes room for it. -/
def crowdedCache : List CacheOp :=
  let message (xid : UInt32) : Message := { dhcpMessageNew with xid := xid }
  [.add 100 (message 1), .add 100 (message 2), .add 101 (message 1), .add 102 (message 3),
    .update 105 0, .update 200 0, .add 201 (message 3)]

theorem crowdedCache_laws :
    ((CacheRun.start addressAllocatorNew 100 2 60).run crowdedCache).cache.map Transaction.xid =
      [3, 2] ∧
    CacheLaws ((CacheRun.start addressAllocatorNew 100 2 60).run crowdedCache).cache
      ((CacheRun.start addressAllocatorNew 100 2 60).run crowdedCache).events := by
  refine ⟨by decide +kernel, transactionCache_laws addressAllocatorNew 100 2 60 crowdedCache ?_⟩
  simp [crowdedCache, CacheOp.Proper]

end DHCPServer
