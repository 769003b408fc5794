import DHCPServer.Server.Ticks

namespace DHCPServer

/-- Two states that differ at most in what the receive step keeps: the message buffer, the
dynamic access list and the cache. -/
structure Receives (s s' : Server) : Prop where
  allocator : s'.allocator = s.allocator
  leases : s'.leases = s.leases
  sent : s'.sent = s.sent
  boundIp : s'.boundIp = s.boundIp

/-- `s'` is `s` after the message `m` has been received and stored. -/
structure Accepts (s : Server) (m : Message) (s' : Server) : Prop extends Receives s s' where
  adds : s.transCache.Adds s'.transCache m
  notOffer : m.type ≠ MsgType.offer
  notAck : m.type ≠ MsgType.ack
  notNak : m.type ≠ MsgType.nak
  cookie : m.cookie = magicCookie

/-- A message as a parse of its own packet leaves it. -/
structure FromWire (m : Message) : Prop where
  cookie : field32 m.packet 236 = magicCookie
  options : dhcpOptionParse (packetOptions m.packet) = .ok m.dhcpOptions
  type : m.wireType = some m.type

section Accept

variable {env : Env} {s s' : Server} {d : Datagram} {accepted : Option Message}

theorem receive_cookie {m m' : Message} (h : receive m d = .ok (true, m')) :
    m'.cookie = magicCookie := by
  rcases dhcpPacketParse_cases h with ⟨-, hok, -⟩ | ⟨hc, options, -, ⟨-, hok, -⟩ | ⟨o, -, -, rfl⟩⟩
  · cases hok
  · cases hok
  · simpa using hc

theorem receive_fromWire {m m' : Message} (h : receive m d = .ok (true, m')) : FromWire m' := by
  rcases dhcpPacketParse_cases h with ⟨-, hok, -⟩ | ⟨hc, options, hparse, ⟨-, hok, -⟩ | ⟨o, ho, -, rfl⟩⟩
  · cases hok
  · cases hok
  · exact ⟨hc, hparse, congrArg (Option.map DhcpOption.number) ho⟩

/-- An accepted message has just been parsed; its time stamp is all that is added. -/
theorem accept_received {m : Message} (h : accept env s d = .ok (some m, s')) :
    ∃ m', receive s.dhcpMsg d = .ok (true, m') ∧ m = m'.setTime env.now ∧ s'.dhcpMsg = m := by
  obtain ⟨⟨ok, m'⟩, hr, h⟩ := seq_ok.mp h
  cases ok with
  | false => cases h
  | true =>
    simp only [Bool.not_true, Bool.false_eq_true, if_false] at h
    repeat' split at h
    all_goals cases h
    exact ⟨m', hr, rfl, rfl⟩

/-- A datagram is dropped, and then only the receive step's own data change, or its message is
stored. -/
theorem accept_cases (hs : s.transCache.Sound) (h : accept env s d = .ok (accepted, s')) :
    (accepted = none ∧ Receives s s' ∧ s'.transCache = s.transCache) ∨
    ∃ m, accepted = some m ∧ Accepts s m s' := by
  obtain ⟨⟨ok, m⟩, hr, h⟩ := seq_ok.mp h
  cases ok with
  | false =>
    simp only [Bool.not_false, if_true] at h
    cases h
    exact .inl ⟨rfl, ⟨rfl, rfl, rfl, rfl⟩, rfl⟩
  | true =>
    simp only [Bool.not_true, Bool.false_eq_true, if_false] at h
    split at h
    · cases h
      exact .inl ⟨rfl, ⟨rfl, rfl, rfl, rfl⟩, rfl⟩
    split at h
    · cases h
      exact .inl ⟨rfl, ⟨rfl, rfl, rfl, rfl⟩, rfl⟩
    split at h
    · cases h
      exact .inl ⟨rfl, ⟨rfl, rfl, rfl, rfl⟩, rfl⟩
    split at h
    · cases h
      exact .inl ⟨rfl, ⟨rfl, rfl, rfl, rfl⟩, rfl⟩
    rename_i htype
    rw [not_or, not_or] at htype
    rcases TransactionCache.add_cases env.now hs m with ⟨hno, -⟩ | ⟨cache, hadd, hadds⟩
    · simp only [Server.setDacl_transCache, Server.setDhcpMsg_transCache, hno, Bool.not_false,
        if_true] at h
      cases h
      exact .inl ⟨rfl, ⟨rfl, rfl, rfl, rfl⟩, rfl⟩
    · simp only [Server.setDacl_transCache, Server.setDhcpMsg_transCache, hadd, Bool.not_true,
        Bool.false_eq_true, if_false] at h
      cases h
      exact .inr ⟨_, rfl, ⟨⟨rfl, rfl, rfl, rfl⟩, hadds, htype.1, htype.2.1, htype.2.2,
        (receive_cookie hr : m.cookie = magicCookie)⟩⟩

end Accept

/-- The message and the state that an accepting receive step comes back with. -/
def acceptedOf : Except Fault (Option Message × Server) → Option (Message × Server)
  | .ok (some m, s) => some (m, s)
  | _ => none

/-- The message that a pass of the loop hands to its handler, and the server at this moment. -/
def handled (s : Server) (e : Event) : Option (Message × Server) :=
  e.datagram.bind fun d => acceptedOf (accept e.env (updateTimers e.env s) d)

theorem acceptedOf_eq_some {x : Except Fault (Option Message × Server)} {m : Message} {s : Server} :
    acceptedOf x = some (m, s) ↔ x = .ok (some m, s) := by
  match x with
  | .error f => simp [acceptedOf]
  | .ok (none, s') => simp [acceptedOf]
  | .ok (some m', s') => simp [acceptedOf]

section Serve

variable {s s' s₂ : Server} {e : Event} {m : Message}

theorem handled_eq_some : handled s e = some (m, s₂) ↔
    ∃ d, e.datagram = some d ∧ accept e.env (updateTimers e.env s) d = .ok (some m, s₂) := by
  unfold handled
  rw [Option.bind_eq_some_iff]
  exact exists_congr fun d => and_congr_right fun _ => acceptedOf_eq_some

theorem handled_fromWire (h : handled s e = some (m, s₂)) : FromWire m := by
  obtain ⟨d, -, ha⟩ := handled_eq_some.mp h
  obtain ⟨m', hr, rfl, -⟩ := accept_received ha
  exact ⟨(receive_fromWire hr).cookie, (receive_fromWire hr).options, (receive_fromWire hr).type⟩

theorem update_cache_sound (env : Env) (hs : s.transCache.Sound) :
    (updateTimers env s).transCache.Sound := by
  rw [updateTimers_transCache]
  exact update_sound hs

theorem handled_accepts (hs : s.transCache.Sound) (h : handled s e = some (m, s₂)) :
    Accepts (updateTimers e.env s) m s₂ := by
  obtain ⟨d, -, ha⟩ := handled_eq_some.mp h
  rcases accept_cases (update_cache_sound _ hs) ha with ⟨hnone, -⟩ | ⟨m', hm', hacc⟩
  · cases hnone
  · cases hm'
    exact hacc

/-- A pass handles no message, or handles the accepted one. -/
theorem serve_cases (hs : s.transCache.Sound) (h : serve s e = .ok s') :
    (handled s e = none ∧ Receives (updateTimers e.env s) s' ∧
      s'.transCache = (updateTimers e.env s).transCache) ∨
    ∃ m s₂ rv, handled s e = some (m, s₂) ∧ dispatch e.env s₂ m = .ok (rv, s') := by
  unfold serve at h
  cases hd : e.datagram with
  | none =>
    simp only [hd] at h
    cases h
    exact .inl ⟨by rw [handled, hd]; rfl, ⟨rfl, rfl, rfl, rfl⟩, rfl⟩
  | some d =>
    simp only [hd] at h
    obtain ⟨⟨accepted, s₂⟩, ha, h⟩ := seq_ok.mp h
    rcases accept_cases (update_cache_sound _ hs) ha with ⟨rfl, hr, hc⟩ | ⟨m, rfl, -⟩
    · cases h
      have hnone : handled s e = none := by
        rw [handled, hd, Option.bind_some, ha]
        rfl
      exact .inl ⟨hnone, hr, hc⟩
    · obtain ⟨⟨rv, s₃⟩, hdisp, h⟩ := seq_ok.mp h
      cases h
      exact .inr ⟨m, s₂, rv, handled_eq_some.mpr ⟨d, hd, ha⟩, hdisp⟩

end Serve

/-- A condition on the passes of a run: on the state in which the timers are updated, and on the
state in which an accepted message is handled. -/
structure PassCondition where
  tick : Env → Server → Prop
  message : Env → Server → Message → Prop

namespace PassCondition

/-- The pass `e` meets the condition in the state `s`. -/
def Holds (c : PassCondition) (s : Server) (e : Event) : Prop :=
  c.tick e.env s ∧ ∀ m s₂, handled s e = some (m, s₂) → c.message e.env s₂ m

/-- Every pass is allowed. -/
def always : PassCondition := ⟨fun _ _ => True, fun _ _ _ => True⟩

theorem always_holds (s : Server) (e : Event) : always.Holds s e :=
  ⟨trivial, fun _ _ _ => trivial⟩

end PassCondition

theorem Replied.sound {now : UInt32} {s s' : Server} {P : Message → Prop}
    (h : Replied now s s' P) (hs : s.transCache.Sound) : s'.transCache.Sound := by
  rcases h.reply with ⟨-, hc⟩ | ⟨sent, -, -, hc | hadds⟩
  · rwa [hc]
  · rwa [hc]
  · exact hadds.sound hs

theorem Effect.sound {env : Env} {s s' : Server} {m : Message} (h : Effect env s m s')
    (hs : s.transCache.Sound) : s'.transCache.Sound := by
  cases h with
  | ignored => exact hs
  | offered _ _ _ hr | refused _ hr | committed _ _ _ hr | renewed _ _ _ _ hr
  | notRenewed _ _ _ hr | informed _ hr => exact hr.sound hs
  | released _ _ _ => exact hs
  | declined _ _ _ => exact hs

theorem Effect.shape {env : Env} {s s' : Server} {m : Message} (h : Effect env s m s') :
    s'.allocator.shape = s.allocator.shape := by
  cases h with
  | ignored => rfl
  | offered _ _ hg hr => exact (congrArg AddressAllocator.shape hr.allocator).trans hg.shape
  | refused _ hr | committed _ _ _ hr | renewed _ _ _ _ hr | notRenewed _ _ _ hr | informed _ hr =>
    exact congrArg AddressAllocator.shape hr.allocator
  | released _ _ _ => exact AddressAllocator.release_shape _ _
  | declined _ _ _ => exact AddressAllocator.requestThis_shape _ _

/-- The rule for invariants of the server loop: what holds at the start, and is kept by the timers,
by the receive step and by every effect of a handler under the condition on the passes, holds
in every state of every run whose passes meet the condition. -/
theorem run_rule {c : PassCondition} {init P : Server → Prop}
    (hinit : ∀ s, init s → s.transCache.Sound ∧ P s)
    (htick : ∀ env s, s.transCache.Sound → P s → c.tick env s → P (updateTimers env s))
    (hdrop : ∀ s s', P s → Receives s s' → s'.transCache = s.transCache → P s')
    (haccept : ∀ env s m s', s.transCache.Sound → P s → Accepts s m s' → c.message env s' m → P s')
    (heffect : ∀ env s₀ s m s' rv, s.transCache.Sound → Accepts s₀ m s → P s →
      c.message env s m → dispatch env s m = .ok (rv, s') → Effect env s m s' → P s')
    {s : Server} (h : Reachable serve c.Holds init s) : s.transCache.Sound ∧ P s := by
  refine h.invariant (P := fun s => s.transCache.Sound ∧ P s) hinit ?_
  rintro s e s' ⟨hs, hP⟩ ⟨hct, hcm⟩ hserve
  have hs₁ := update_cache_sound e.env hs
  have hP₁ := htick e.env s hs hP hct
  rcases serve_cases hs hserve with ⟨-, hr, hc⟩ | ⟨m, s₂, rv, hh, hdisp⟩
  · exact ⟨by rwa [hc], hdrop _ _ hP₁ hr hc⟩
  · have hacc := handled_accepts hs hh
    have hs₂ := hacc.adds.sound hs₁
    have hcond := hcm m s₂ hh
    have hP₂ := haccept e.env _ m s₂ hs₁ hP₁ hacc hcond
    have heff := dispatch_effect hs₂ hdisp
    exact ⟨heff.sound hs₂, heffect e.env _ s₂ m s' rv hs₂ hacc hP₂ hcond hdisp heff⟩

theorem Replied.all {now : UInt32} {s s' : Server} {P Q : Message → Prop}
    (h : Replied now s s' P) (ha : s.transCache.All Q) (hq : ∀ r, P r → Q (r.setTime now)) :
    s'.transCache.All Q := by
  rcases h.reply with ⟨-, hc⟩ | ⟨sent, hP, -, hc | hadds⟩
  · rwa [hc]
  · rwa [hc]
  · exact hadds.all ha (hq _ hP)

/-- `Q` holds of every message that can be cached: of the accepted ones and of each kind of
reply. -/
structure Cacheable (Q : Message → Prop) : Prop where
  accepted : ∀ s m s', Accepts s m s' → Q m
  offer : ∀ m x r now, OfferOf m x r → Q (r.setTime now)
  nak : ∀ m r now, ReplyOf m 0 MsgType.nak 6 r → Q (r.setTime now)
  ack : ∀ m x r now, ReplyOf m x 0 5 r → Q (r.setTime now)
  inform : ∀ m r now, ReplyOf m 0 MsgType.ack 5 r → Q (r.setTime now)

theorem Effect.all {env : Env} {s s' : Server} {m : Message} {Q : Message → Prop}
    (h : Effect env s m s') (hQ : Cacheable Q) (ha : s.transCache.All Q) : s'.transCache.All Q := by
  cases h with
  | ignored => exact ha
  | offered _ _ _ hr => exact hr.all ha fun r hP => hQ.offer m _ r env.now hP
  | refused _ hr => exact hr.all ha fun r hP => hQ.nak m r env.now hP
  | committed _ _ _ hr | renewed _ _ _ _ hr | notRenewed _ _ _ hr =>
    exact hr.all ha fun r hP => hQ.ack m _ r env.now hP
  | informed _ hr => exact hr.all ha fun r hP => hQ.inform m r env.now hP
  | released _ _ _ => exact ha
  | declined _ _ _ => exact ha

/-- The rule for a property of the cached messages that the handlers keep. -/
theorem kept_rule {c : PassCondition} {init : Server → Prop} {Q : Message → Prop}
    (hinit : ∀ s, init s → s.transCache.Sound ∧ s.transCache.All Q)
    (haccepted : ∀ s m s', Accepts s m s' → Q m)
    (heffect : ∀ env s m s', Effect env s m s' → s.transCache.All Q → s'.transCache.All Q)
    {s : Server} (h : Reachable serve c.Holds init s) :
    s.transCache.Sound ∧ s.transCache.All Q := by
  refine run_rule (P := fun s => s.transCache.All Q) hinit ?_ ?_ ?_ ?_ h
  · intro env s _ ha _
    rw [updateTimers_transCache]
    exact update_all ha
  · intro s s' ha _ hc
    rwa [hc]
  · intro env s m s' _ ha hacc _
    exact hacc.adds.all ha (haccepted s m s' hacc)
  · intro env s₀ s m s' rv _ _ ha _ _ heff
    exact heffect env s m s' heff ha

/-- The rule for what every cached message satisfies. -/
theorem cached_rule {c : PassCondition} {init : Server → Prop} {Q : Message → Prop}
    (hinit : ∀ s, init s → s.transCache.Sound ∧ s.transCache.All Q) (hQ : Cacheable Q)
    {s : Server} (h : Reachable serve c.Holds init s) :
    s.transCache.Sound ∧ s.transCache.All Q :=
  kept_rule hinit hQ.accepted (fun _ _ _ _ heff ha => heff.all hQ ha) h

/-- The packet sent on the way from `s` to `s'`. -/
def answer (s s' : Server) : Option Sent := (s'.sent.drop s.sent.length).head?

theorem answer_self (s : Server) : answer s s = none := by simp [answer]

theorem Replied.answer {now : UInt32} {s s' : Server} {P : Message → Prop} {k : Sent}
    (h : Replied now s s' P) (hk : answer s s' = some k) : P k.message := by
  rcases h.reply with ⟨hsent, -⟩ | ⟨sent, hP, hsent, -⟩
  · simp [DHCPServer.answer, hsent] at hk
  · simp only [DHCPServer.answer, hsent, List.drop_left, List.head?_cons, Option.some.injEq] at hk
    rwa [← hk]

/-- The message a pass handles, the server before and after it is handled, and the answer. -/
def exchange (s : Server) (e : Event) : Option (Message × Server × Server × Sent) :=
  (handled s e).bind fun r => (dispatch e.env r.2 r.1).toOption.bind fun x =>
    (answer r.2 x.2).map fun k => (r.1, r.2, x.2, k)

theorem exchange_eq_some {s s₂ s' : Server} {e : Event} {m : Message} {k : Sent} :
    exchange s e = some (m, s₂, s', k) ↔ handled s e = some (m, s₂) ∧
      ∃ rv, dispatch e.env s₂ m = .ok (rv, s') ∧ answer s₂ s' = some k := by
  unfold exchange
  rw [Option.bind_eq_some_iff]
  constructor
  · intro h
    obtain ⟨⟨m', s₂'⟩, hm, hx⟩ := h
    obtain ⟨⟨rv, s''⟩, hd, hk⟩ := Option.bind_eq_some_iff.mp hx
    obtain ⟨k', hk', heq⟩ := Option.map_eq_some_iff.mp hk
    simp only [Prod.mk.injEq] at heq
    obtain ⟨rfl, rfl, rfl, rfl⟩ := heq
    exact ⟨hm, rv, toOption_eq_some.mp hd, hk'⟩
  · intro h
    obtain ⟨hm, rv, hd, hk⟩ := h
    exact ⟨(m, s₂), hm, by simp [hd, Except.toOption, hk]⟩

end DHCPServer
