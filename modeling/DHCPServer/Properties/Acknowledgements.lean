import DHCPServer.Server.Startup

namespace DHCPServer

/-- Every OFFER of the cache has been sent, and stands in its transaction beside a DISCOVER of the
same client. -/
def OffersAnswer (cache : TransactionCache) (sent : List Sent) : Prop :=
  ∀ t ∈ cache, ∀ o ∈ t.messages, o.type = MsgType.offer →
    (∃ d ∈ t.messages, d.type = MsgType.discover ∧ d.chaddr = o.chaddr) ∧
      ∃ k ∈ sent, ∃ time, o = k.message.setTime time

/-- The cache holds an OFFER of the address `a` that was sent to the client of `m` under the xid
of `m`. -/
def OfferedTo (s : Server) (m : Message) (a : UInt32) : Prop :=
  ∃ o, s.transCache.Holds o ∧ o.type = MsgType.offer ∧ o.xid = m.xid ∧ o.chaddr = m.chaddr ∧
    o.yiaddr = a ∧ ∃ k ∈ s.sent, ∃ time, o = k.message.setTime time

/-- A REQUEST whose lease is committed asks for an address offered under its xid, and all
DISCOVERs under this xid come from the same hardware address. -/
def requestsOffered : PassCondition where
  tick := fun _ _ => True
  message := fun env s m => m.type = MsgType.request → ∀ o50 lease,
    m.option Tag.requestedIpAddress = some o50 → Commits env s m o50.ip lease →
      (∃ t ∈ s.transCache, t.xid = m.xid ∧ ∃ o ∈ t.messages,
        o.type = MsgType.offer ∧ o.yiaddr = o50.ip) ∧
      ∀ t ∈ s.transCache, t.xid = m.xid → ∀ d ∈ t.messages, d.type = MsgType.discover →
        d.chaddr = m.chaddr

section Offers

variable {env : Env} {now : UInt32} {s s' : Server} {m : Message}

theorem OffersAnswer.mono {cache : TransactionCache} {sent sent' : List Sent}
    (h : OffersAnswer cache sent) (hs : ∀ k ∈ sent, k ∈ sent') : OffersAnswer cache sent' := by
  intro t ht o ho htype
  obtain ⟨hd, k, hk, hko⟩ := h t ht o ho htype
  exact ⟨hd, k, hs k hk, hko⟩

theorem OffersAnswer.update {cache : TransactionCache} {sent : List Sent}
    (h : OffersAnswer cache sent) : OffersAnswer (cache.map (updatedSlot now)) sent := by
  intro t ht o ho htype
  obtain ⟨t₀, ht₀, rfl⟩ := List.mem_map.mp ht
  rw [updatedSlot_messages] at ho ⊢
  split at ho
  · cases ho
  · rename_i he
    rw [if_neg he]
    exact h t₀ ht₀ o ho htype

/-- A message that is not an OFFER joins a transaction. -/
theorem OffersAnswer.add {cache cache' : TransactionCache} {sent : List Sent}
    (h : OffersAnswer cache sent) (ha : cache.Adds cache' m) (hm : m.type ≠ MsgType.offer) :
    OffersAnswer cache' sent := by
  intro q hq o ho htype
  rcases ha.mem hq with hq | ⟨-, -, t, ht, hmsgs, -⟩
  · exact h q hq o ho htype
  · rw [hmsgs, List.mem_append, List.mem_singleton] at ho
    rcases ho with ho | rfl
    · obtain ⟨⟨d, hd, hdisc⟩, hsent⟩ := h t ht o ho htype
      exact ⟨⟨d, by simp [hmsgs, hd], hdisc⟩, hsent⟩
    · exact absurd htype hm

theorem Replied.offersAnswer {P : Message → Prop} (h : Replied now s s' P)
    (ho : OffersAnswer s.transCache s.sent) (hP : ∀ r, P r → r.type ≠ MsgType.offer) :
    OffersAnswer s'.transCache s'.sent := by
  rcases h.reply with ⟨hsent, hc⟩ | ⟨k, hk, hsent, hc | hadds⟩
  · rwa [hsent, hc]
  · rw [hsent, hc]
    exact ho.mono fun k hk => List.mem_append_left _ hk
  · rw [hsent]
    have hne : (k.message.setTime now).type ≠ MsgType.offer := hP k.message hk
    exact (ho.mono fun k hk => List.mem_append_left _ hk).add hadds hne

/-- The OFFER that answers a DISCOVER joins the transaction the DISCOVER was stored in. -/
theorem Replied.offersAnswer_offer {x : UInt32} (h : Replied now s s' (OfferOf m x))
    (hst : s.transCache.Stores m) (ht : m.type = MsgType.discover)
    (ho : OffersAnswer s.transCache s.sent) : OffersAnswer s'.transCache s'.sent := by
  rcases h.reply with ⟨hsent, hc⟩ | ⟨k, hk, hsent, hc | hadds⟩
  · rwa [hsent, hc]
  · rw [hsent, hc]
    exact ho.mono fun k hk => List.mem_append_left _ hk
  · have ho' : OffersAnswer s.transCache s'.sent := ho.mono fun k hk => by simp [hsent, hk]
    intro q hq o hmem htype
    rcases hadds.joins hst hk.xid hq with hq | ⟨-, t, htc, hm, hmsgs⟩
    · exact ho' q hq o hmem htype
    · rw [hmsgs, List.mem_append, List.mem_singleton] at hmem
      rcases hmem with hmem | rfl
      · obtain ⟨⟨d, hd, hdisc⟩, hs⟩ := ho' t htc o hmem htype
        exact ⟨⟨d, by simp [hmsgs, hd], hdisc⟩, hs⟩
      · exact ⟨⟨m, by simp [hmsgs, hm], ht, hk.chaddr.symm⟩, k, by simp [hsent], now, rfl⟩

theorem offers_answer {c : PassCondition} (h : Reachable serve c.Holds Started s) :
    s.transCache.Sound ∧ OffersAnswer s.transCache s.sent := by
  refine run_rule (P := fun s => OffersAnswer s.transCache s.sent) ?_ ?_ ?_ ?_ ?_ h
  · intro s h
    obtain ⟨cfg, files, now, rfl⟩ := h
    refine ⟨startup_sound cfg files now, ?_⟩
    intro t ht o ho _
    exact (startup_all cfg files now (fun _ => False) t ht o ho).elim
  · intro env s _ ho _
    rw [updateTimers_transCache, updateTimers_sent]
    exact ho.update
  · intro s s' ho hr hc
    rwa [hc, hr.sent]
  · intro env s m s' _ ho hacc _
    rw [hacc.sent]
    exact ho.add hacc.adds hacc.notOffer
  · intro env s₀ s m s' rv _ hacc ho _ _ heff
    have htype : ∀ {x cached wire : UInt32} {r : Message}, ReplyOf m x cached wire r →
        cached ≠ MsgType.offer → r.type ≠ MsgType.offer := fun hr hne => by rwa [hr.type]
    cases heff with
    | ignored | released _ _ _ | declined _ _ _ => exact ho
    | offered ht _ _ hr => exact hr.offersAnswer_offer hacc.adds.stores ht ho
    | refused _ hr | committed _ _ _ hr | renewed _ _ _ _ hr | notRenewed _ _ _ hr
    | informed _ hr => exact hr.offersAnswer ho fun r hP => htype hP (by decide)

end Offers

section Acks

variable {s s₂ s' : Server} {e : Event} {m : Message} {k : Sent}

/-- The effect of handling a message that a pass has accepted. -/
theorem handled_effect {c : PassCondition} {rv : Int} (hs : Reachable serve c.Holds Started s)
    (hm : handled s e = some (m, s₂)) (hd : dispatch e.env s₂ m = .ok (rv, s')) :
    Effect e.env s₂ m s' := by
  have hsound := update_cache_sound e.env (reachable_sound hs)
  exact dispatch_effect ((handled_accepts (reachable_sound hs) hm).adds.sound hsound) hd

/-- The three kinds of ACK: of a lease that has just been committed, of a renewal, whether it was
possible or not, and of an INFORM. -/
theorem Effect.ack_cases {env : Env} (h : Effect env s m s') (hk : answer s s' = some k)
    (hack : k.message.wireType = some MsgType.ack) : k.message.chaddr = m.chaddr ∧
    ((∃ o50 lease, m.option Tag.requestedIpAddress = some o50 ∧ Commits env s m o50.ip lease ∧
        k.message.yiaddr = o50.ip ∧ s'.leases = (leaseAdd true s.leases lease).2) ∨
      (m.option Tag.serverIdentifier = none ∧ k.message.yiaddr = m.ciaddr ∧
        (s'.leases = s.leases ∨ ∃ p r t, FirstRecord s m.ciaddr p r ∧ r.clientMacAddress = m.mac ∧
          s'.leases = renewedLeases env s p r t)) ∨
      (m.type = MsgType.inform ∧ k.message.yiaddr = 0)) := by
  have hwire : ∀ {x cached wire : UInt32}, ReplyOf m x cached wire k.message → wire = 5 :=
    fun hr => Option.some.inj (hr.wireType.symm.trans hack)
  cases h with
  | ignored =>
    rw [answer_self] at hk
    cases hk
  | offered _ _ _ hr => exact absurd (hwire (hr.answer hk).toReplyOf) (by decide)
  | refused _ hr => exact absurd (hwire (hr.answer hk)) (by decide)
  | committed _ h50 hc hr =>
    have hrep := hr.answer hk
    exact ⟨hrep.chaddr, .inl ⟨_, _, h50, hc, hrep.yiaddr, hr.leases⟩⟩
  | renewed _ h54 hf hmac hr =>
    have hrep := hr.answer hk
    exact ⟨hrep.chaddr, .inr (.inl ⟨h54, hrep.yiaddr, .inr ⟨_, _, _, hf, hmac, hr.leases⟩⟩)⟩
  | notRenewed _ h54 _ hr =>
    have hrep := hr.answer hk
    exact ⟨hrep.chaddr, .inr (.inl ⟨h54, hrep.yiaddr, .inl hr.leases⟩)⟩
  | informed ht hr =>
    have hrep := hr.answer hk
    exact ⟨hrep.chaddr, .inr (.inr ⟨ht, hrep.yiaddr⟩)⟩
  | released _ _ _ =>
    have hnone := answer_self s
    exact absurd (hnone.symm.trans hk) (by simp)
  | declined _ _ _ =>
    have hnone := answer_self s
    exact absurd (hnone.symm.trans hk) (by simp)

/-- In every run, a pass that meets the condition acknowledges only what was offered to that very
client. -/
theorem ack_only_of_offered {o54 : DhcpOption}
    (hs : Reachable serve PassCondition.always.Holds Started s) (hc : requestsOffered.Holds s e)
    (hx : exchange s e = some (m, s₂, s', k)) (ht : m.type = MsgType.request)
    (h54 : m.option Tag.serverIdentifier = some o54)
    (hack : k.message.wireType = some MsgType.ack) : OfferedTo s₂ m k.message.yiaddr := by
  obtain ⟨hm, rv, hd, hk⟩ := exchange_eq_some.mp hx
  obtain ⟨hsound, hoffers⟩ := offers_answer hs
  have hacc := handled_accepts hsound hm
  have hsound₂ := hacc.adds.sound (update_cache_sound e.env hsound)
  have hoffers₂ : OffersAnswer s₂.transCache s₂.sent := by
    rw [hacc.sent, updateTimers_sent]
    refine OffersAnswer.add ?_ hacc.adds hacc.notOffer
    rw [updateTimers_transCache]
    exact hoffers.update
  obtain ⟨o50, lease, h50, hcom, hy⟩ : ∃ o50 lease, m.option Tag.requestedIpAddress = some o50 ∧
      Commits e.env s₂ m o50.ip lease ∧ k.message.yiaddr = o50.ip := by
    rcases (handled_effect hs hm hd).ack_cases hk hack with
      ⟨-, ⟨o50, lease, h50, hcom, hy, -⟩ | ⟨hno, -⟩ | ⟨hinform, -⟩⟩
    · exact ⟨o50, lease, h50, hcom, hy⟩
    · exact absurd (hno.symm.trans h54) (by simp)
    · exact absurd (ht.symm.trans hinform) (by decide)
  obtain ⟨⟨t, htc, hxid, o, ho, htype, hyo⟩, hclient⟩ := hc.2 m s₂ hm ht o50 lease h50 hcom
  obtain ⟨⟨d, hdm, hdt, hdc⟩, hsent⟩ := hoffers₂ t htc o ho htype
  refine ⟨o, ⟨t, htc, ?_, ho⟩, htype, ?_, ?_, ?_, hsent⟩
  · by_contra hidle
    rw [((hsound₂ t htc).idle (by simpa using hidle)).1] at ho
    cases ho
  · rw [(hsound₂ t htc).xids o ho, hxid]
  · rw [← hdc]
    exact hclient t htc hxid d hdm hdt
  · rw [hyo, hy]

/-- A test for passes that meet the condition. -/
def asksForOffered (s : Server) (e : Event) : Bool :=
  (handled s e).all fun r => (r.1.option Tag.requestedIpAddress).all fun o50 =>
    r.2.transCache.any (fun t => t.xid == r.1.xid &&
      t.messages.any fun o => o.type == MsgType.offer && o.yiaddr == o50.ip) &&
    r.2.transCache.all fun t => t.messages.all fun d => d.chaddr == r.1.chaddr

theorem asksForOffered_holds {s : Server} {e : Event} (h : asksForOffered s e = true) :
    requestsOffered.Holds s e := by
  refine ⟨trivial, ?_⟩
  intro m s₂ hm _ o50 lease h50 _
  simp only [asksForOffered, hm, h50, Option.all_some, Bool.and_eq_true, List.any_eq_true,
    List.all_eq_true, beq_iff_eq] at h
  exact ⟨h.1, fun t ht _ d hd _ => h.2 t ht d hd⟩

/-- The client that was offered 10.0.0.1 gets an ACK for it. -/
theorem request_of_offer_acknowledged :
    ∃ s m s₂ s' k, exchange s (requestBy 1002 7 1 1) = some (m, s₂, s', k) ∧
      k.message.wireType = some MsgType.ack ∧ OfferedTo s₂ m k.message.yiaddr := by
  have hrun : ([discoverBy 1001 7 1].foldlM (Reachable.checked serve fun _ _ => true)
      smallServer).any (fun s => asksForOffered s (requestBy 1002 7 1 1) &&
        (exchange s (requestBy 1002 7 1 1)).any fun x => x.1.type == MsgType.request &&
          (x.1.option Tag.serverIdentifier).isSome &&
          x.2.2.2.message.wireType == some MsgType.ack) = true := by decide +kernel
  obtain ⟨s, hs, htest⟩ := Reachable.of_run (fun s e _ => PassCondition.always_holds s e) _
    smallServer_started hrun
  rw [Bool.and_eq_true] at htest
  obtain ⟨⟨m, s₂, s', k⟩, hx, hq⟩ := (Option.any_eq_true _ _).mp htest.2
  simp only [Bool.and_eq_true, beq_iff_eq] at hq
  obtain ⟨⟨ht, h54⟩, hack⟩ := hq
  obtain ⟨o54, h54⟩ := Option.isSome_iff_exists.mp h54
  exact ⟨s, m, s₂, s', k, hx, hack,
    ack_only_of_offered hs (asksForOffered_holds htest.1) hx ht h54 hack⟩

/-- A client that was offered 10.0.0.2 gets an ACK for 10.0.0.1, which another client holds. -/
theorem ack_of_address_not_offered :
    ¬∀ s e m s₂ s' k, Reachable serve PassCondition.always.Holds Started s →
      exchange s e = some (m, s₂, s', k) → m.type = MsgType.request →
      (m.option Tag.serverIdentifier).isSome → k.message.wireType = some MsgType.ack →
      OfferedTo s₂ m k.message.yiaddr := by
  intro h
  have hrun : ([discoverBy 1001 9 2].foldlM (Reachable.checked serve fun _ _ => true)
      leasedServer).any (fun s => (exchange s (requestBy 1002 9 2 1)).any fun x =>
        x.1.type == MsgType.request && (x.1.option Tag.serverIdentifier).isSome &&
        x.2.2.2.message.wireType == some MsgType.ack &&
        x.2.1.transCache.all fun t => t.messages.all fun o =>
          o.yiaddr != x.2.2.2.message.yiaddr) = true := by decide +kernel
  obtain ⟨s, hs, htest⟩ := Reachable.of_run (fun s e _ => PassCondition.always_holds s e) _
    leasedServer_started hrun
  obtain ⟨⟨m, s₂, s', k⟩, hx, hq⟩ := (Option.any_eq_true _ _).mp htest
  simp only [Bool.and_eq_true, beq_iff_eq, List.all_eq_true, bne_iff_ne] at hq
  obtain ⟨⟨⟨ht, h54⟩, hack⟩, hnone⟩ := hq
  obtain ⟨o, ⟨t, htc, -, ho⟩, -, -, -, hy, -⟩ := h s _ m s₂ s' k hs hx ht h54 hack
  exact hnone t htc o ho hy

/-- A pool's file holds a record of the address for the client. -/
def HasLease (s : Server) (a : UInt32) (mac : Mac) : Prop :=
  ∃ n ∈ s.allocator.poolNames, ∃ r ∈ s.leases n, r.address = a ∧ r.clientMacAddress = mac

/-- In every run, the ACK of a new lease finds the lease in the store, and the ACK of a renewal, where
no write to the file fails, finds one exactly if the client had one when its REQUEST came in. -/
theorem ack_backed_by_lease (hs : Reachable serve PassCondition.always.Holds Started s)
    (hx : exchange s e = some (m, s₂, s', k)) (hack : k.message.wireType = some MsgType.ack)
    (hy : k.message.yiaddr ≠ 0) :
    ((m.option Tag.serverIdentifier).isSome →
      HasLease s' k.message.yiaddr k.message.mac) ∧
    (m.option Tag.serverIdentifier = none → e.env.writes = true → e.env.rewrite ≠ .notWritten →
      (HasLease s' k.message.yiaddr k.message.mac ↔ HasLease s₂ k.message.yiaddr k.message.mac)) := by
  obtain ⟨hm, rv, hd, hk⟩ := exchange_eq_some.mp hx
  have heff := handled_effect hs hm hd
  obtain ⟨hch, hcases⟩ := heff.ack_cases hk hack
  have hmac : k.message.mac = m.mac := by rw [Message.mac, hch, Message.mac]
  have hnames := AddressAllocator.poolNames_of_shape heff.shape
  rw [hmac]
  rcases hcases with ⟨o50, lease, -, hcom, hyi, hl⟩ | ⟨h54, hyi, hl⟩ | ⟨-, hzero⟩
  · obtain ⟨haddr, hown, p, hp, hname⟩ := hcom.record
    refine ⟨fun _ => ⟨lease.poolName, ?_, lease.record, ?_, haddr.trans hyi.symm, hown⟩, ?_⟩
    · rw [hnames, hname]
      exact List.mem_map_of_mem (List.mem_of_find?_eq_some hp)
    · rw [hl]
      exact mem_leaseAdd_self lease
    · intro h54
      obtain ⟨o54, hsome, -⟩ := hcom.serverIdentifier
      exact absurd (h54.symm.trans hsome) (by simp)
  · refine ⟨fun hsome => by simp [h54] at hsome, fun _ hw hnot => ?_⟩
    rcases hl with hl | ⟨p, r, t, hf, hown, hl⟩
    · rw [HasLease, HasLease, hnames, hl]
    by_cases hopen : e.env.rewrite = .notOpened
    · rw [HasLease, HasLease, hnames, hl, renewedLeases_notOpened hopen]
    · -- the record that was found is there again with its new times
      have hp : p.name ∈ s₂.allocator.poolNames :=
        List.mem_map_of_mem (List.mem_of_find?_eq_some hf.pool)
      refine iff_of_true ⟨p.name, hnames ▸ hp, r.extend e.env.now t, ?_, ?_, hown⟩
        ⟨p.name, hp, r, hf.mem, hf.address.trans hyi.symm, hown⟩
      · rw [hl]
        exact mem_renewedLeases_self (Env.extends_iff.mpr ⟨hw, hopen, hnot⟩) t
      · exact hf.address.trans hyi.symm
  · exact absurd hzero hy

/-- A renewal of 10.0.0.1 by the client that holds it. -/
theorem renewal_by_owner_acknowledged :
    ∃ m s₂ s' k, exchange leasedServer (renewBy 1002 7 0x0a000001 1) = some (m, s₂, s', k) ∧
      k.message.yiaddr = 0x0a000001 ∧
      ((m.option Tag.serverIdentifier).isSome → HasLease s' k.message.yiaddr k.message.mac) ∧
      (m.option Tag.serverIdentifier = none → (renewBy 1002 7 0x0a000001 1).env.writes = true →
        (renewBy 1002 7 0x0a000001 1).env.rewrite ≠ .notWritten →
        (HasLease s' k.message.yiaddr k.message.mac ↔
          HasLease s₂ k.message.yiaddr k.message.mac)) := by
  have hany : (exchange leasedServer (renewBy 1002 7 0x0a000001 1)).any (fun x =>
      x.2.2.2.message.wireType == some MsgType.ack &&
        x.2.2.2.message.yiaddr == 0x0a000001) = true := by decide +kernel
  obtain ⟨⟨m, s₂, s', k⟩, hx, hq⟩ := (Option.any_eq_true _ _).mp hany
  simp only [Bool.and_eq_true, beq_iff_eq] at hq
  exact ⟨m, s₂, s', k, hx, hq.2, ack_backed_by_lease (.start leasedServer_started) hx hq.1
    (by rw [hq.2]; decide)⟩

/-- A client without a lease is acknowledged when it renews one. -/
theorem renewal_without_lease_acknowledged :
    ¬∀ s e m s₂ s' k, Reachable serve PassCondition.always.Holds Started s →
      exchange s e = some (m, s₂, s', k) → k.message.wireType = some MsgType.ack →
      k.message.yiaddr ≠ 0 → HasLease s' k.message.yiaddr k.message.mac := by
  intro h
  have hany : (exchange smallServer (renewBy 1002 7 0x0a000001 1)).any (fun x =>
      x.2.2.2.message.wireType == some MsgType.ack && x.2.2.2.message.yiaddr != 0 &&
        x.2.2.1.allocator.poolNames.all fun n => (x.2.2.1.leases n).isEmpty) = true := by
    decide +kernel
  obtain ⟨⟨m, s₂, s', k⟩, hx, hq⟩ := (Option.any_eq_true _ _).mp hany
  simp only [Bool.and_eq_true, beq_iff_eq, bne_iff_ne, List.all_eq_true, List.isEmpty_iff] at hq
  obtain ⟨⟨hack, hy⟩, hempty⟩ := hq
  obtain ⟨n, hn, r, hr, -⟩ := h _ _ m s₂ s' k (.start smallServer_started) hx hack hy
  rw [hempty n hn] at hr
  cases hr

end Acks

end DHCPServer
