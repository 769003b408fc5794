import DHCPServer.Properties.Lookups

namespace DHCPServer

/-- Every cached OFFER offers an address. -/
def OffersNameAddress (cache : TransactionCache) : Prop :=
  cache.All fun o => o.type = MsgType.offer → o.yiaddr ≠ 0

section OfferedAddress

variable {s : Server} {request offer : Message}

theorem Effect.offersNameAddress {env : Env} {s' : Server} {m : Message} (h : Effect env s m s')
    (ha : OffersNameAddress s.transCache) : OffersNameAddress s'.transCache := by
  have hother : ∀ {a cached wire : UInt32} (r : Message), cached ≠ MsgType.offer →
      ReplyOf m a cached wire r → r.type = MsgType.offer → r.yiaddr ≠ 0 :=
    fun r hne hr ht => absurd (hr.type.symm.trans ht) hne
  cases h with
  | ignored => exact ha
  | offered _ _ hg hr =>
    apply hr.all ha
    intro r hoffer _
    rw [Message.setTime, hoffer.yiaddr]
    exact AddressPool.belongs_ne_zero hg.belongs
  | refused _ hr => exact hr.all ha fun r => hother r (by decide)
  | committed _ _ _ hr | renewed _ _ _ _ hr | notRenewed _ _ _ hr =>
    exact hr.all ha fun r => hother r (by decide)
  | informed _ hr => exact hr.all ha fun r => hother r (by decide)
  | released _ _ _ => exact ha
  | declined _ _ _ => exact ha

theorem reachable_offersNameAddress {c : PassCondition} (h : Reachable serve c.Holds Started s) :
    OffersNameAddress s.transCache := by
  refine (kept_rule ?_ ?_ ?_ h).2
  · intro s h
    obtain ⟨cfg, files, now, rfl⟩ := h
    exact ⟨startup_sound cfg files now, startup_all cfg files now _⟩
  · intro s m s' hacc ht
    exact absurd ht hacc.notOffer
  · intro env s m s' heff ha
    exact heff.offersNameAddress ha

/-- A REQUEST without option 50 gets no address from the cached OFFER: the OFFER never has the
option that is looked for. -/
theorem retrieveClientAddress_eq_zero (hoffers : OffersLackAddress s.transCache)
    (h50 : request.option Tag.requestedIpAddress = none) :
    retrieveClientAddress request s.transCache = 0 := by
  by_contra hne
  obtain ⟨o50, ho50, -⟩ := retrieveClientAddress_ne_zero hoffers hne
  rw [h50] at ho50
  cases ho50

/-- What is kept of the cached OFFERs holds as well when a message is handled. -/
theorem handled_offers {Q : Message → Prop} {e : Event} {s₂ : Server} (hs : s.transCache.Sound)
    (ha : s.transCache.All fun o => o.type = MsgType.offer → Q o)
    (hh : handled s e = some (request, s₂)) :
    s₂.transCache.All fun o => o.type = MsgType.offer → Q o := by
  have hacc := handled_accepts hs hh
  refine hacc.adds.all (Q := fun o => o.type = MsgType.offer → Q o) ?_ ?_
  · rw [updateTimers_transCache]
    exact update_all ha
  · intro ht
    exact absurd ht hacc.notOffer

/-- Whatever is cached in whatever run, the offered address is not found for a REQUEST that does
not name it. -/
theorem offered_address_not_retrieved (s s₂ : Server) (e : Event) (request offer : Message)
    (t : Transaction) (h : Reachable serve PassCondition.always.Holds Started s)
    (hh : handled s e = some (request, s₂)) (ht : t ∈ s₂.transCache)
    (hoffer : offer ∈ t.messages ∧ offer.type = MsgType.offer)
    (h50 : request.option Tag.requestedIpAddress = none) :
    retrieveClientAddress request s₂.transCache ≠ offer.yiaddr ∧
      retrieveClientAddress request s₂.transCache = 0 := by
  have hlack : OffersLackAddress s₂.transCache :=
    handled_offers (reachable_sound h) (cached_offers_lack_address h).2 hh
  have hname : OffersNameAddress s₂.transCache :=
    handled_offers (reachable_sound h) (reachable_offersNameAddress h) hh
  have hzero := retrieveClientAddress_eq_zero hlack h50
  refine ⟨?_, hzero⟩
  rw [hzero]
  exact (hname t ht offer hoffer.1 hoffer.2).symm

end OfferedAddress

/-- The client accepts an OFFER of the server and does not name the address. -/
def acceptsUnnamed (now xid : UInt32) (client : UInt8) : Event :=
  receives now (clientPacket xid 0 [2, 0, 0, 0, 0, client]
    [53, 1, 3, 54, 4, 10, 0, 0, 254, 55, 1, 1, 255])

/-- An OFFER of 10.0.0.1 is cached when the REQUEST without the address is handled. -/
theorem acceptsUnnamed_handled : ∃ s m s₂ t offer,
    Reachable serve PassCondition.always.Holds Started s ∧
    handled s (acceptsUnnamed 1002 7 1) = some (m, s₂) ∧
    m.option Tag.requestedIpAddress = none ∧ t ∈ s₂.transCache ∧ t.xid = m.xid ∧
    (offer ∈ t.messages ∧ offer.type = MsgType.offer) ∧ offer.yiaddr = 0x0a000001 ∧
    retrieveClientAddress m s₂.transCache = 0 := by
  have hrun : ([discoverBy 1001 7 1].foldlM (Reachable.checked serve fun _ _ => true)
      smallServer).any (fun s => (handled s (acceptsUnnamed 1002 7 1)).any fun r =>
        (r.1.option Tag.requestedIpAddress).isNone &&
        (retrieveClientAddress r.1 r.2.transCache == 0) &&
        r.2.transCache.any fun t => t.xid == r.1.xid && t.messages.any fun o =>
          o.type == MsgType.offer && o.yiaddr == 0x0a000001) = true := by decide +kernel
  obtain ⟨s, hs, hq⟩ := Reachable.of_run (fun s e _ => PassCondition.always_holds s e) _
    smallServer_started hrun
  obtain ⟨⟨m, s₂⟩, hm, hq⟩ := (Option.any_eq_true _ _).mp hq
  simp only [Bool.and_eq_true, Option.isNone_iff_eq_none, beq_iff_eq, List.any_eq_true] at hq
  obtain ⟨⟨h50, hzero⟩, t, ht, hx, o, ho, htype, hy⟩ := hq
  exact ⟨s, m, s₂, t, o, hs, hm, h50, ht, hx, ⟨ho, htype⟩, hy, hzero⟩

theorem offered_address_lost : ∃ s m s₂, ∃ offer : Message,
    handled s (acceptsUnnamed 1002 7 1) = some (m, s₂) ∧
    retrieveClientAddress m s₂.transCache ≠ offer.yiaddr ∧
    retrieveClientAddress m s₂.transCache = 0 := by
  obtain ⟨s, m, s₂, t, offer, hs, hm, h50, ht, -, hoffer, -, -⟩ := acceptsUnnamed_handled
  exact ⟨s, m, s₂, offer, hm,
    offered_address_not_retrieved s s₂ _ m offer t hs hm ht hoffer h50⟩

theorem cached_offer_not_found : ¬∀ s s₂ e request (offer : Message) t,
    Reachable serve PassCondition.always.Holds Started s →
    handled s e = some (request, s₂) → t ∈ s₂.transCache → t.xid = request.xid →
    (offer ∈ t.messages ∧ offer.type = MsgType.offer) →
    request.option Tag.requestedIpAddress = none →
    retrieveClientAddress request s₂.transCache = offer.yiaddr ∧
      retrieveClientAddress request s₂.transCache ≠ 0 := by
  intro h
  obtain ⟨s, m, s₂, t, offer, hs, hm, h50, ht, hx, hoffer, -, hzero⟩ := acceptsUnnamed_handled
  exact (h s s₂ _ m offer t hs hm ht hx hoffer h50).2 hzero

end DHCPServer
