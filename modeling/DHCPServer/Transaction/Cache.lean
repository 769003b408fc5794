import DHCPServer.Framework.FirstMatch
import DHCPServer.Transaction.Transaction

namespace DHCPServer

/-- `transaction_cache_t`: a fixed number of slots. -/
abbrev TransactionCache := List Transaction

def transCacheNew (now : UInt32) (size : Nat) (time : UInt32) : TransactionCache :=
  List.replicate size (transNew now time)

/-- `trans_cache_retrieve_transaction`. An idle slot has xid 0 and is found under it. -/
def transCacheRetrieveTransaction (cache : TransactionCache) (xid : UInt32) : Option Transaction :=
  cache.find? (·.xid == xid)

/-- `trans_cache_add_message`: the message is stamped and copied into the transaction of its xid,
or into the next slot whose timer is stopped. `true` stands for the return value 0. The source
copies the record and so shares the option list of a received message with the receive buffer. Here
the copy keeps the options it was stored with; what the server reads there later is another matter,
the `memory` of its environment. -/
def transCacheAddMessage (now : UInt32) (cache : TransactionCache) (message : Message) :
    Bool × TransactionCache :=
  let message := message.setTime now
  match onFirst (·.xid == message.xid) (transAdd now · message) cache with
  | some res => res
  | none =>
    match onFirst (!·.timer.isRunning) (fun t => transAdd now (transClear now t) message) cache with
    | some res => res
    | none => (false, cache)

def transCacheRetrieveMessage (cache : TransactionCache) (xid type : UInt32) : Option Message :=
  (transCacheRetrieveTransaction cache xid).bind (transSearchFor · type)

def transCacheRetrieveMessageLast (cache : TransactionCache) (xid type : UInt32) :
    Option Message :=
  (transCacheRetrieveTransaction cache xid).bind (transSearchForLast · type)

/-- `trans_cache_retrieve_message_index`: the caller's index is cut to eight bits. -/
def transCacheRetrieveMessageIndex (cache : TransactionCache) (xid index : UInt32) :
    Option Message :=
  (transCacheRetrieveTransaction cache xid).bind (transGetIndex · index.toUInt8)

/-- `trans_cache_purge` -/
def transCachePurge (now : UInt32) (cache : TransactionCache) : TransactionCache :=
  cache.map (transClear now)

namespace TransactionCache

/-- Every slot is sound. -/
def Sound (cache : TransactionCache) : Prop := ∀ t ∈ cache, t.Sound

/-- The message stands in a transaction whose timer is running. -/
def Holds (cache : TransactionCache) (m : Message) : Prop :=
  ∃ t ∈ cache, t.timer.isRunning = true ∧ m ∈ t.messages

/-- Every message of the cache satisfies `Q`. -/
def All (cache : TransactionCache) (Q : Message → Prop) : Prop :=
  ∀ t ∈ cache, ∀ m ∈ t.messages, Q m

/-- The transaction that is found under the message's xid holds the message. -/
def Stores (cache : TransactionCache) (m : Message) : Prop :=
  ∃ t, transCacheRetrieveTransaction cache m.xid = some t ∧ m ∈ t.messages

/-- `cache'` is `cache` with one more message in one slot. -/
structure Adds (cache cache' : TransactionCache) (m : Message) : Prop where
  adds : ∃ pre t t' post, cache = pre ++ t :: post ∧ cache' = pre ++ t' :: post ∧
    t'.messages = t.messages ++ [m] ∧ t'.xid = m.xid ∧ t'.timer.isRunning = true ∧ t'.Sound ∧
    (∀ q ∈ pre, q.xid ≠ m.xid) ∧
    (t.xid = m.xid ∨ (t.timer.isRunning = false ∧ ∀ q ∈ cache, q.xid ≠ m.xid))

theorem sound_new (now : UInt32) (size : Nat) (time : UInt32) :
    (transCacheNew now size time).Sound := by
  intro t ht
  obtain ⟨-, rfl⟩ := List.mem_replicate.mp ht
  exact transNew_sound time

variable {now : UInt32} {cache cache' : TransactionCache} {m : Message}

/-- What is found in a transaction is found after another message has joined it, whatever the
cache holds. -/
theorem retrieveMessage_add (now : UInt32) {r d : Message} {type : UInt32}
    (h : transCacheRetrieveMessage cache r.xid type = some d) :
    transCacheRetrieveMessage (transCacheAddMessage now cache r).2 r.xid type = some d := by
  obtain ⟨t, ht, hd⟩ := Option.bind_eq_some_iff.mp h
  unfold transCacheAddMessage
  dsimp only
  cases hfound : onFirst (·.xid == (r.setTime now).xid) (transAdd now · (r.setTime now)) cache with
  | none =>
    have hno := onFirst_eq_none.mp hfound t (List.mem_of_find?_eq_some ht)
    have hxid : (t.xid == r.xid) = true :=
      List.find?_some (p := fun t : Transaction => t.xid == r.xid) ht
    exact absurd hxid (by simpa using hno)
  | some res =>
    obtain ⟨pre, t₀, post, rfl, hpre, hx, rfl⟩ := onFirst_eq_some hfound
    have hfirst : transCacheRetrieveTransaction (pre ++ t₀ :: post) r.xid = some t₀ :=
      find?_append_first hpre hx
    obtain rfl : t₀ = t := Option.some.inj (hfirst.symm.trans ht)
    have htakes : t₀.Takes (r.setTime now) := .inl (by simpa using hx)
    obtain ⟨t', heq, hmsgs, hxid, -, -⟩ := transAdd_cases now htakes
    have hafter : transCacheRetrieveTransaction (pre ++ t' :: post) r.xid = some t' :=
      find?_append_first hpre (by simpa using hxid)
    rw [heq]
    show (transCacheRetrieveTransaction (pre ++ t' :: post) r.xid).bind (transSearchFor · type) = _
    rw [hafter, Option.bind_some, transSearchFor, hmsgs, List.find?_append]
    rw [transSearchFor] at hd
    rw [hd]
    rfl

/-- The two outcomes of `trans_cache_add_message`. -/
theorem add_cases (now : UInt32) (hs : cache.Sound) (m : Message) :
    (transCacheAddMessage now cache m = (false, cache) ∧
      ∀ t ∈ cache, t.xid ≠ m.xid ∧ t.timer.isRunning = true) ∨
    ∃ cache', transCacheAddMessage now cache m = (true, cache') ∧
      cache.Adds cache' (m.setTime now) := by
  unfold transCacheAddMessage
  dsimp only
  cases hfound : onFirst (·.xid == (m.setTime now).xid) (transAdd now · (m.setTime now)) cache with
  | some res =>
    obtain ⟨pre, t, post, rfl, hpre, hx, rfl⟩ := onFirst_eq_some hfound
    have hxid : t.xid = (m.setTime now).xid := by simpa using hx
    obtain ⟨t', heq, hmsgs, hxid', -, -⟩ := transAdd_cases now (.inl hxid : t.Takes (m.setTime now))
    have hsound := (hs t (by simp)).add now (.inl hxid : t.Takes (m.setTime now))
    rw [heq] at hsound
    refine .inr ⟨pre ++ t' :: post, by rw [heq], ⟨pre, t, t', post, rfl, rfl, hmsgs, hxid',
      hsound.2, hsound.1, by simpa using hpre, .inl hxid⟩⟩
  | none =>
    have hno : ∀ t ∈ cache, t.xid ≠ m.xid := by simpa using onFirst_eq_none.mp hfound
    cases hidle : onFirst (!·.timer.isRunning)
        (fun t => transAdd now (transClear now t) (m.setTime now)) cache with
    | some res =>
      obtain ⟨pre, t, post, rfl, hpre, hx, rfl⟩ := onFirst_eq_some hidle
      have hidle' : t.timer.isRunning = false := by simpa using hx
      have htakes : (transClear now t).Takes (m.setTime now) := .inr ⟨rfl, rfl, rfl⟩
      have ht := hs t (by simp)
      obtain ⟨t', heq, hmsgs, hxid', -, -⟩ := transAdd_cases now htakes
      have hsound := (transClear_sound now ht.once).add now htakes
      rw [heq] at hsound
      refine .inr ⟨pre ++ t' :: post, by rw [heq], ⟨pre, t, t', post, rfl, rfl, ?_, hxid',
        hsound.2, hsound.1, fun q hq => hno q (by simp [hq]), .inr ⟨hidle', hno⟩⟩⟩
      rw [hmsgs, (ht.idle hidle').1, transClear_messages]
    | none =>
      refine .inl ⟨rfl, fun t ht => ⟨hno t ht, ?_⟩⟩
      simpa using onFirst_eq_none.mp hidle t ht

theorem Adds.sound (h : cache.Adds cache' m) (hs : cache.Sound) : cache'.Sound := by
  obtain ⟨pre, t, t', post, rfl, rfl, -, -, -, ht', -, -⟩ := h.adds
  intro q hq
  rcases List.mem_append.mp hq with hq | hq
  · exact hs q (by simp [hq])
  · rcases List.mem_cons.mp hq with rfl | hq
    · exact ht'
    · exact hs q (by simp [hq])

/-- The slots of the cache after the addition: one with the new message, and old ones. -/
theorem Adds.mem (h : cache.Adds cache' m) {q : Transaction} (hq : q ∈ cache') :
    q ∈ cache ∨ (q.xid = m.xid ∧ q.timer.isRunning = true ∧ ∃ t ∈ cache,
      q.messages = t.messages ++ [m] ∧
      (transCacheRetrieveTransaction cache m.xid = some t ∨
        (t.timer.isRunning = false ∧ transCacheRetrieveTransaction cache m.xid = none))) := by
  obtain ⟨pre, t, t', post, rfl, rfl, hmsgs, hxid, hrun, -, hpre, hor⟩ := h.adds
  rcases List.mem_append.mp hq with hq | hq
  · exact .inl (by simp [hq])
  rcases List.mem_cons.mp hq with rfl | hq
  · refine .inr ⟨hxid, hrun, t, by simp, hmsgs, hor.imp ?_ ?_⟩
    · intro ht
      exact find?_append_first (by simpa using hpre) (by simpa using ht)
    · intro h
      obtain ⟨hidle, hno⟩ := h
      refine ⟨hidle, List.find?_eq_none.mpr ?_⟩
      simpa using hno
  · exact .inl (by simp [hq])

theorem Adds.all {Q : Message → Prop} (h : cache.Adds cache' m) (ha : cache.All Q) (hm : Q m) :
    cache'.All Q := by
  intro q hq m' hm'
  rcases h.mem hq with hq | ⟨-, -, t, ht, hmsgs, -⟩
  · exact ha q hq m' hm'
  · rw [hmsgs, List.mem_append, List.mem_singleton] at hm'
    rcases hm' with hm' | rfl
    · exact ha t ht m' hm'
    · exact hm

theorem All.retrieve {Q : Message → Prop} (ha : cache.All Q) {xid type : UInt32}
    (h : transCacheRetrieveMessage cache xid type = some m) : Q m ∧ m.type = type := by
  obtain ⟨t, ht, hm⟩ := Option.bind_eq_some_iff.mp h
  refine ⟨ha t (List.mem_of_find?_eq_some ht) m (List.mem_of_find?_eq_some hm), ?_⟩
  simpa using List.find?_some hm

theorem searchForLast_mem {t : Transaction} {type : UInt32}
    (h : transSearchForLast t type = some m) : m ∈ t.messages ∧ m.type = type := by
  unfold transSearchForLast at h
  -- what is kept on the way is a hit among the messages walked over
  have hgen : ∀ (l : List Message) (last : Option Message),
      l.foldl (fun last m => if m.type == type then some m else last) last = some m →
        (m ∈ l ∧ m.type = type) ∨ last = some m := by
    intro l
    induction l with
    | nil => exact fun last h => .inr h
    | cons m' l ih =>
      intro last h
      rcases ih _ h with ⟨hm, ht⟩ | hlast
      · exact .inl ⟨List.mem_cons_of_mem _ hm, ht⟩
      · dsimp only at hlast
        split at hlast
        · rename_i ht
          obtain rfl := Option.some.inj hlast
          exact .inl ⟨List.mem_cons_self, by simpa using ht⟩
        · exact .inr hlast
  rcases hgen t.messages none h with h | h
  · exact h
  · cases h

theorem All.retrieveLast {Q : Message → Prop} (ha : cache.All Q) {xid type : UInt32}
    (h : transCacheRetrieveMessageLast cache xid type = some m) : Q m ∧ m.type = type := by
  obtain ⟨t, ht, hm⟩ := Option.bind_eq_some_iff.mp h
  obtain ⟨hmem, htype⟩ := searchForLast_mem hm
  exact ⟨ha t (List.mem_of_find?_eq_some ht) m hmem, htype⟩

/-- Under the xid of a stored message there is room for another one. -/
theorem add_of_stores (now : UInt32) (hs : cache.Sound) (hst : cache.Stores m) {r : Message}
    (hx : r.xid = m.xid) : ∃ cache', transCacheAddMessage now cache r = (true, cache') ∧
      cache.Adds cache' (r.setTime now) := by
  obtain ⟨t, ht, -⟩ := hst
  rcases add_cases now hs r with ⟨-, hno⟩ | h
  · have hxid : t.xid = m.xid := by simpa using List.find?_some ht
    exact absurd (hxid.trans hx.symm) (hno t (List.mem_of_find?_eq_some ht)).1
  · exact h

theorem Adds.stores (h : cache.Adds cache' m) : cache'.Stores m := by
  obtain ⟨pre, t, t', post, rfl, rfl, hmsgs, hxid, -, -, hpre, -⟩ := h.adds
  refine ⟨t', ?_, by simp [hmsgs]⟩
  exact find?_append_first (by simpa using hpre) (by simpa using hxid)

/-- A message with the xid of a stored one joins its transaction. -/
theorem Adds.joins {r : Message} (h : cache.Adds cache' r) (hs : cache.Stores m)
    (hx : r.xid = m.xid) {q : Transaction} (hq : q ∈ cache') :
    q ∈ cache ∨ (q.xid = r.xid ∧ ∃ t ∈ cache, m ∈ t.messages ∧ q.messages = t.messages ++ [r]) := by
  obtain ⟨t₀, ht₀, hm⟩ := hs
  rcases h.mem hq with hq | ⟨hxid, -, t, ht, hmsgs, ht' | ⟨-, hnone⟩⟩
  · exact .inl hq
  · rw [hx, ht₀] at ht'
    obtain rfl := Option.some.inj ht'
    exact .inr ⟨hxid, t₀, ht, hm, hmsgs⟩
  · rw [hx, ht₀] at hnone
    cases hnone

theorem Adds.holds (h : cache.Adds cache' m) (hs : cache.Sound) {m' : Message} :
    cache'.Holds m' ↔ cache.Holds m' ∨ m' = m := by
  obtain ⟨pre, t, t', post, rfl, rfl, hmsgs, hxid, hrun, -, -, -⟩ := h.adds
  have ht := hs t (by simp)
  constructor
  · intro h
    obtain ⟨q, hq, hr, hm'⟩ := h
    rcases List.mem_append.mp hq with hq | hq
    · exact .inl ⟨q, by simp [hq], hr, hm'⟩
    · rcases List.mem_cons.mp hq with rfl | hq
      · rw [hmsgs, List.mem_append, List.mem_singleton] at hm'
        refine hm'.imp (fun hm' => ⟨t, by simp, ?_, hm'⟩) id
        by_contra hidle
        rw [(ht.idle (by simpa using hidle)).1] at hm'
        cases hm'
      · exact .inl ⟨q, by simp [hq], hr, hm'⟩
  · rintro (⟨q, hq, hr, hm'⟩ | rfl)
    · rcases List.mem_append.mp hq with hq | hq
      · exact ⟨q, by simp [hq], hr, hm'⟩
      · rcases List.mem_cons.mp hq with rfl | hq
        · exact ⟨t', by simp, hrun, by simp [hmsgs, hm']⟩
        · exact ⟨q, by simp [hq], hr, hm'⟩
    · exact ⟨t', by simp, hrun, by simp [hmsgs]⟩

/-- The answer to a stored message joins it in its transaction. -/
theorem Adds.joined {r : Message} (h : cache.Adds cache' r) (hst : cache.Stores m)
    (hx : r.xid = m.xid) :
    ∃ t, transCacheRetrieveTransaction cache' m.xid = some t ∧ m ∈ t.messages ∧ r ∈ t.messages := by
  obtain ⟨pre, t, t', post, rfl, rfl, hmsgs, hxid, -, -, hpre, hor⟩ := h.adds
  obtain ⟨t₀, ht₀, hm⟩ := hst
  have hxid₀ : t₀.xid = m.xid := by simpa using List.find?_some ht₀
  have hmem₀ : t₀ ∈ pre ++ t :: post := List.mem_of_find?_eq_some ht₀
  have hxt : t.xid = m.xid := by
    rcases hor with hxt | ⟨-, hno⟩
    · exact hxt.trans hx
    · exact absurd (hxid₀.trans hx.symm) (hno t₀ hmem₀)
  have hsame : t₀ = t := by
    have hfind : transCacheRetrieveTransaction (pre ++ t :: post) m.xid = some t :=
      find?_append_first (by simpa [hx] using hpre) (by simpa using hxt)
    exact Option.some.inj (ht₀.symm.trans hfind)
  refine ⟨t', find?_append_first (by simpa [hx] using hpre) (by simpa [hx] using hxid), ?_, ?_⟩
  · rw [hmsgs, ← hsame]
    exact List.mem_append_left _ hm
  · rw [hmsgs]
    exact List.mem_append_right _ List.mem_cons_self

end TransactionCache

end DHCPServer
