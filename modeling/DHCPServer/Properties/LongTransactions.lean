import DHCPServer.Server.Ticks

namespace DHCPServer

/-- The messages that have been added under an xid to one live transaction, and the cache behind
them. In between messages of other xids are added and timers updated; other transactions may time
out, but a slot that is cleared has the xid 0. -/
inductive Conversation : UInt32 → List Message → TransactionCache → Prop
  | opens {cache cache' now m} (hs : cache.Sound)
      (hidle : ∀ t ∈ cache, t.xid = m.xid → t.timer.isRunning = false)
      (hadd : transCacheAddMessage now cache m = (true, cache')) :
      Conversation m.xid [m.setTime now] cache'
  | adds {ms cache m} (h : Conversation m.xid ms cache) (now : UInt32) :
      Conversation m.xid (ms ++ [m.setTime now]) (transCacheAddMessage now cache m).2
  | others {x ms cache m} (h : Conversation x ms cache) (hx : m.xid ≠ x) (now : UInt32) :
      Conversation x ms (transCacheAddMessage now cache m).2
  | ticks {x ms cache now} (h : Conversation x ms cache)
      (hlive : ∀ t ∈ cache, expires now t = true → t.xid ≠ x ∧ x ≠ 0) :
      Conversation x ms (cache.map (updatedSlot now))

/-- The transaction found under the xid has the messages, counts them, and began with the first. -/
structure Transaction.Records (t : Transaction) (x : UInt32) (ms : List Message) : Prop where
  xid : t.xid = x
  running : t.timer.isRunning = true
  messages : t.messages = ms
  count : t.numOfMessages.toNat = ms.length % 256
  begins : ms.length ≤ 256 → ms.head?.map Message.time = some t.transactionBegin

/-- The transaction is the first slot with the xid. -/
structure TransactionCache.Opened (cache : TransactionCache) (x : UInt32) (ms : List Message) :
    Prop where
  sound : cache.Sound
  slot : ∃ pre t post, cache = pre ++ t :: post ∧ (∀ q ∈ pre, q.xid ≠ x) ∧ t.Records x ms

section Steps

variable {x now : UInt32} {m : Message} {ms : List Message} {t : Transaction}
  {cache : TransactionCache}

theorem Transaction.Records.add (h : t.Records m.xid ms) (hne : ms ≠ []) (now : UInt32) :
    (transAdd now t (m.setTime now)).2.Records m.xid (ms ++ [m.setTime now]) := by
  have hxid : ¬(t.xid ≠ 0 ∧ t.xid ≠ (m.setTime now).xid) := by simp [h.xid]
  rw [transAdd, if_neg hxid]
  refine ⟨?_, ?_, ?_, ?_, ?_⟩
  · simp [h.xid]
  · dsimp only
    split
    · rfl
    · exact h.running
  · simp [h.messages]
  · have hcount := h.count
    simp only [UInt8.toNat_add, List.length_append, List.length_singleton, UInt8.toNat_one]
    omega
  · intro hlen
    rw [List.length_append, List.length_singleton] at hlen
    have hpos := List.length_pos_of_ne_nil hne
    have hcount := h.count
    -- only behind 256 messages the counter is 0 again
    have hnum : t.numOfMessages ≠ 0 := by
      intro h0
      rw [h0, UInt8.toNat_zero] at hcount
      omega
    rw [if_neg hnum, List.head?_append_of_ne_nil _ hne]
    exact h.begins (by omega)

/-- The first message of an empty slot. -/
theorem Transaction.Records.first (hmsgs : t.messages = []) (hxid : t.xid = 0)
    (hnum : t.numOfMessages = 0) (now : UInt32) (m : Message) :
    (transAdd now t (m.setTime now)).2.Records m.xid [m.setTime now] := by
  have hopen : ¬(t.xid ≠ 0 ∧ t.xid ≠ (m.setTime now).xid) := by simp [hxid]
  rw [transAdd, if_neg hopen, hnum]
  exact ⟨rfl, rfl, by simp [hmsgs], rfl, fun _ => rfl⟩

theorem Transaction.Records.tick (h : t.Records x ms) (he : expires now t = false) :
    (updatedSlot now t).Records x ms := by
  have hrun := updatedSlot_isRunning now t
  rw [he, h.running] at hrun
  have hslot : updatedSlot now t = t.setTimer (timerUpdate now t.timer).2 := by
    rw [updatedSlot, he]
    rfl
  rw [hslot] at hrun ⊢
  exact ⟨h.xid, hrun, h.messages, h.count, h.begins⟩

theorem add_sound (hs : cache.Sound) (now : UInt32) (m : Message) :
    (transCacheAddMessage now cache m).2.Sound := by
  rcases TransactionCache.add_cases now hs m with ⟨hadd, -⟩ | ⟨cache', hadd, hadds⟩
  · rwa [hadd]
  · rw [hadd]
    exact hadds.sound hs

namespace TransactionCache

theorem opened_of_opens {cache' : TransactionCache} (hs : cache.Sound)
    (hidle : ∀ t ∈ cache, t.xid = m.xid → t.timer.isRunning = false)
    (hadd : transCacheAddMessage now cache m = (true, cache')) :
    Opened cache' m.xid [m.setTime now] := by
  refine ⟨by simpa [hadd] using add_sound hs now m, ?_⟩
  rw [transCacheAddMessage] at hadd
  cases hfound : onFirst (·.xid == (m.setTime now).xid) (transAdd now · (m.setTime now)) cache with
  | some res =>
    obtain ⟨pre, t, post, rfl, hpre, hx, rfl⟩ := onFirst_eq_some hfound
    rw [hfound] at hadd
    obtain ⟨-, rfl⟩ := Prod.mk.inj hadd
    have ht := (hs t (by simp)).idle (hidle t (by simp) (by simpa using hx))
    exact ⟨pre, _, post, rfl, by simpa using hpre, .first ht.1 ht.2.1 ht.2.2 now m⟩
  | none =>
    have hno : ∀ t ∈ cache, t.xid ≠ m.xid := by simpa using onFirst_eq_none.mp hfound
    rw [hfound] at hadd
    cases hfree : onFirst (!·.timer.isRunning)
        (fun t => transAdd now (transClear now t) (m.setTime now)) cache with
    | none =>
      rw [hfree] at hadd
      cases hadd
    | some res =>
      obtain ⟨pre, t, post, rfl, -, -, rfl⟩ := onFirst_eq_some hfree
      rw [hfree] at hadd
      obtain ⟨-, rfl⟩ := Prod.mk.inj hadd
      exact ⟨pre, _, post, rfl, fun q hq => hno q (by simp [hq]), .first rfl rfl rfl now m⟩

theorem Opened.add (h : cache.Opened m.xid ms) (hne : ms ≠ []) (now : UInt32) :
    (transCacheAddMessage now cache m).2.Opened m.xid (ms ++ [m.setTime now]) := by
  refine ⟨add_sound h.sound now m, ?_⟩
  obtain ⟨pre, t, post, rfl, hpre, ht⟩ := h.slot
  have hfound : onFirst (·.xid == (m.setTime now).xid) (transAdd now · (m.setTime now))
      (pre ++ t :: post) = some ((transAdd now t (m.setTime now)).1,
        pre ++ (transAdd now t (m.setTime now)).2 :: post) := by
    apply onFirst_append
    · simpa using hpre
    · simpa using ht.xid
  rw [transCacheAddMessage, hfound]
  exact ⟨pre, _, post, rfl, hpre, ht.add hne now⟩

/-- A message of another xid takes another slot. -/
theorem Opened.other (h : cache.Opened x ms) (hx : m.xid ≠ x) (now : UInt32) :
    (transCacheAddMessage now cache m).2.Opened x ms := by
  refine ⟨add_sound h.sound now m, ?_⟩
  rcases add_cases now h.sound m with ⟨hadd, -⟩ | ⟨cache', hadd, hadds⟩
  · rw [hadd]
    exact h.slot
  · rw [hadd]
    obtain ⟨pre, t, post, rfl, hpre, ht⟩ := h.slot
    obtain ⟨pre', u, u', post', hsplit, rfl, -, hu', -, -, -, hu⟩ := hadds.adds
    have hne : t ≠ u := by
      rintro rfl
      rcases hu with hu | ⟨hu, -⟩
      · exact hx (hu.symm.trans ht.xid)
      · rw [ht.running] at hu
        cases hu
    obtain ⟨front, back, hback, hfront⟩ := append_replace_other u' hsplit hne
    refine ⟨front, t, back, hback, ?_, ht⟩
    intro q hq
    rcases hfront q hq with hq | rfl
    · exact hpre q hq
    · rw [hu']
      exact hx

theorem Opened.tick (h : cache.Opened x ms)
    (hlive : ∀ t ∈ cache, expires now t = true → t.xid ≠ x ∧ x ≠ 0) :
    Opened (cache.map (updatedSlot now)) x ms := by
  refine ⟨update_sound h.sound, ?_⟩
  obtain ⟨pre, t, post, rfl, hpre, ht⟩ := h.slot
  refine ⟨pre.map (updatedSlot now), updatedSlot now t, post.map (updatedSlot now), by simp, ?_, ?_⟩
  · intro q hq
    obtain ⟨q₀, hq₀, rfl⟩ := List.mem_map.mp hq
    rw [updatedSlot]
    split
    · rename_i he
      exact (hlive q₀ (by simp [hq₀]) he).2.symm
    · exact hpre q₀ hq₀
  · apply ht.tick
    rw [Bool.eq_false_iff]
    intro he
    exact (hlive t (by simp) he).1 ht.xid

end TransactionCache

end Steps

section Counts

variable {x : UInt32} {ms : List Message} {cache : TransactionCache}

theorem Conversation.opened (h : Conversation x ms cache) : ms ≠ [] ∧ cache.Opened x ms := by
  induction h with
  | opens hs hidle hadd =>
    exact ⟨by simp, TransactionCache.opened_of_opens hs hidle hadd⟩
  | adds _ now ih => exact ⟨by simp, ih.2.add ih.1 now⟩
  | others _ hx now ih => exact ⟨ih.1, ih.2.other hx now⟩
  | ticks _ hlive ih => exact ⟨ih.1, ih.2.tick hlive⟩

/-- The transaction counts its messages, began with the first of them, and under an index the
message added with that number is found. -/
def AnsweredAt (x : UInt32) (ms : List Message) (cache : TransactionCache) (index : UInt32) : Prop :=
  (∃ t, transCacheRetrieveTransaction cache x = some t ∧ t.numOfMessages.toNat = ms.length ∧
    ms.head?.map Message.time = some t.transactionBegin) ∧
  transCacheRetrieveMessageIndex cache x index = ms[index.toNat]?

/-- What the counter and an index of eight bits make of a long transaction. -/
theorem long_transaction_iff (h : Conversation x ms cache) (index : UInt32) :
    AnsweredAt x ms cache index ↔
      ms.length ≤ 255 ∧ (index.toNat < 256 ∨ ms.length ≤ index.toNat % 256) := by
  obtain ⟨hne, -, pre, t, post, rfl, hpre, ht⟩ := h.opened
  have hfound : transCacheRetrieveTransaction (pre ++ t :: post) x = some t :=
    find?_append_first (by simpa using hpre) (by simpa using ht.xid)
  have hindex : transCacheRetrieveMessageIndex (pre ++ t :: post) x index =
      ms[index.toNat % 256]? := by
    rw [transCacheRetrieveMessageIndex, hfound, Option.bind_some, transGetIndex, ht.messages,
      UInt32.toNat_toUInt8]
  have hcount := ht.count
  constructor
  · rintro ⟨⟨t', ht', hnum, -⟩, hsame⟩
    rw [hfound] at ht'
    obtain rfl := Option.some.inj ht'
    refine ⟨by omega, ?_⟩
    by_contra hnot
    rw [not_or, Nat.not_lt, Nat.not_le] at hnot
    have hfar : ms[index.toNat]? = none := List.getElem?_eq_none (by omega)
    rw [hindex, hfar, List.getElem?_eq_none_iff] at hsame
    omega
  · rintro ⟨hle, hi⟩
    refine ⟨⟨t, hfound, by omega, ht.begins (by omega)⟩, ?_⟩
    rw [hindex]
    rcases hi with hi | hi
    · rw [Nat.mod_eq_of_lt hi]
    · rw [List.getElem?_eq_none hi, List.getElem?_eq_none]
      have hmod := Nat.mod_le index.toNat 256
      omega

/-- A message that is sent again and again. -/
def repeatedMessage : Message := { dhcpMessageNew with xid := 7 }

theorem exists_conversation (n : Nat) : ∃ cache,
    Conversation 7 (List.replicate (n + 1) (repeatedMessage.setTime 100)) cache := by
  induction n with
  | zero =>
    have hadd : transCacheAddMessage 100 (transCacheNew 100 1 60) repeatedMessage =
      (true, (transCacheAddMessage 100 (transCacheNew 100 1 60) repeatedMessage).2) := rfl
    refine ⟨_, .opens (TransactionCache.sound_new 100 1 60) ?_ hadd⟩
    intro t ht _
    obtain ⟨-, rfl⟩ := List.mem_replicate.mp ht
    rfl
  | succ n ih =>
    obtain ⟨cache, h⟩ := ih
    have hnext : Conversation repeatedMessage.xid (_ ++ [repeatedMessage.setTime 100]) _ :=
      .adds h 100
    rw [List.replicate_succ']
    exact ⟨_, hnext⟩

/-- Behind 256 messages the counter is 0. -/
theorem transaction_of_256 : ∃ ms cache, Conversation 7 ms cache ∧ ms.length = 256 ∧
    ∀ index, ¬AnsweredAt 7 ms cache index := by
  obtain ⟨cache, h⟩ := exists_conversation 255
  refine ⟨_, cache, h, List.length_replicate, ?_⟩
  rintro index ⟨⟨t, ht, hnum, -⟩, -⟩
  obtain ⟨-, -, pre, t', post, rfl, hpre, hrecords⟩ := h.opened
  have hfound : transCacheRetrieveTransaction (pre ++ t' :: post) 7 = some t' :=
    find?_append_first (by simpa using hpre) (by simpa using hrecords.xid)
  rw [hfound] at ht
  obtain rfl := Option.some.inj ht
  rw [hrecords.count, List.length_replicate] at hnum
  exact absurd hnum (by decide)

/-- The third of four messages. -/
theorem long_transaction_short : ∃ cache,
    AnsweredAt 7 (List.replicate 4 (repeatedMessage.setTime 100)) cache 2 := by
  obtain ⟨cache, h⟩ := exists_conversation 3
  exact ⟨cache, (long_transaction_iff h 2).mpr (by decide)⟩

end Counts

end DHCPServer
