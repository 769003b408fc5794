import DHCPServer.Properties.StableLists
import DHCPServer.Server.CachedLists

namespace DHCPServer

namespace HandleServer

variable {malloc : Heap (List DhcpOption) → Handle} {s s' : HandleServer} {env : Env}
  {d : Datagram} {m : Message} {accepted : Option Message} {R : Message → Ref → Prop}
  {lists : Heap (List DhcpOption)} {cache : TransactionCache} {refs : List (List Ref)}

/-- An OFFER of the cache has a list of its own, which is still there. -/
def OfferKept (s : HandleServer) (m : Message) (r : Ref) : Prop :=
  m.type = MsgType.offer → r.handle ≠ s.buffer ∧ s.lists.get r.handle = some m.dhcpOptions

/-- The list of the buffer is live, and so are those of the OFFERs. -/
structure OffersKept (s : HandleServer) : Prop where
  buffer : ∃ options, s.lists.get s.buffer = some options
  offers : Referred s.OfferKept s.server.transCache s.refs

/-- What is read through the handles, in a cache where the lists of OFFERs are read as they are. -/
theorem seen_kept (h : Referred R cache refs) (hread : ∀ m r, R m r → m.type = MsgType.offer →
      (lists.get r.handle).getD [] = m.dhcpOptions)
    (hset : ∀ m r, R m r → R (m.setOptions ((lists.get r.handle).getD [])) r) :
    Referred R (List.zipWith (seenSlot lists) cache refs) refs ∧
      TransactionCache.bare (List.zipWith (seenSlot lists) cache refs) = cache.bare := by
  have hslot : ∀ (messages : List Message) (rs : List Ref), List.Forall₂ R messages rs →
      List.Forall₂ R (List.zipWith (fun m r => m.setOptions ((lists.get r.handle).getD []))
        messages rs) rs ∧
      (List.zipWith (fun m r => m.setOptions ((lists.get r.handle).getD [])) messages rs).map
        Message.bare = messages.map Message.bare := by
    intro messages rs hmessages
    induction hmessages with
    | nil => exact ⟨.nil, rfl⟩
    | @cons m r _ _ hr _ ih =>
      have hbare : (m.setOptions ((lists.get r.handle).getD [])).bare = m.bare := by
        by_cases ht : m.type = MsgType.offer
        · rw [hread m r hr ht]
          rfl
        · exact bare_setOptions _ ht
      refine ⟨.cons (hset m r hr) ih.1, ?_⟩
      rw [List.zipWith_cons_cons, List.map_cons, List.map_cons, hbare, ih.2]
  induction h with
  | nil => exact ⟨.nil, rfl⟩
  | @cons t rs _ _ hmessages _ ih =>
    obtain ⟨hkept, hbare⟩ := hslot t.messages rs hmessages
    refine ⟨.cons hkept ih.1, ?_⟩
    have hseen : (seenSlot lists t rs).bare = t.bare :=
      congrArg (fun messages => { t with messages := messages }) hbare
    show (seenSlot lists t rs).bare :: TransactionCache.bare (List.zipWith (seenSlot lists) _ _) = _
    rw [hseen, ih.2]
    rfl

theorem started_offersKept (h : Started malloc s) : s.OffersKept := by
  refine ⟨?_, started_referred _ h⟩
  obtain ⟨server, -, rfl⟩ := h
  exact ⟨[], Heap.get_put_self⟩

theorem updateTimers_offersKept (env : Env) (h : s.OffersKept) : (s.updateTimers env).OffersKept := by
  refine ⟨h.buffer, ?_⟩
  have hcache : (s.updateTimers env).server.transCache =
      s.server.transCache.map (updatedSlot env.now) := updateTimers_transCache env s.server
  have hrefs : (s.updateTimers env).refs = List.zipWith (fun t rs => rs.take t.messages.length)
      (s.updateTimers env).server.transCache s.refs := rfl
  rw [hrefs, hcache]
  exact referred_updated env.now h.offers

/-- Parsing a packet destroys the list of the buffer, which no OFFER refers to. -/
theorem parse_offersKept (hm : Heap.Allocates malloc) (h : s.OffersKept)
    (hp : s.parse malloc d = .ok s') : s'.OffersKept ∧ s'.server.Alike s.server := by
  obtain ⟨⟨ok, m⟩, -, hp⟩ := seq_ok.mp hp
  dsimp only at hp
  split at hp
  · cases hp
    exact ⟨h, .refl _⟩
  · cases hp
    have hkept : Referred (fun q r => q.type = MsgType.offer →
        r.handle ≠ malloc (s.lists.free s.buffer) ∧
          ((s.lists.free s.buffer).put (malloc (s.lists.free s.buffer)) m.dhcpOptions).get r.handle =
            some q.dhcpOptions) s.server.transCache s.refs := by
      refine referred_mono ?_ h.offers
      intro q _ _ r _ hr ht
      obtain ⟨hne, hl⟩ := hr ht
      have hfree : (s.lists.free s.buffer).get r.handle = some q.dhcpOptions := by
        rw [Heap.get_free_ne hne, hl]
      refine ⟨?_, Heap.get_put_of_live hm hfree⟩
      intro heq
      rw [heq, hm] at hfree
      cases hfree
    obtain ⟨hseen, hbare⟩ := seen_kept hkept
      (fun q r hr ht => by rw [(hr ht).2, Option.getD_some])
      (fun q r hr ht => ⟨(hr ht).1, by rw [(hr ht).2]; rfl⟩)
    exact ⟨⟨⟨_, Heap.get_put_self⟩, hseen⟩, rfl, hbare.symm⟩

/-- A message that is accepted is no OFFER. -/
theorem accept_offersKept (hs : s.server.transCache.Sound) (h : s.OffersKept)
    (ha : s.accept env d = .ok (accepted, s')) :
    DHCPServer.accept env s.server d = .ok (accepted, s'.server) ∧ s'.OffersKept ∧
      s'.server.transCache.Sound := by
  obtain ⟨⟨accepted', server⟩, hacc, ha⟩ := seq_ok.mp ha
  cases ha
  refine ⟨hacc, ?_⟩
  rcases accept_cases hs hacc with ⟨-, -, hc⟩ | ⟨m, -, haccepts⟩
  · refine ⟨⟨h.buffer, ?_⟩, by rwa [hc]⟩
    dsimp only
    rw [hc, referred_same h.offers]
    exact h.offers
  · refine ⟨⟨h.buffer, ?_⟩, haccepts.adds.sound hs⟩
    exact referred_adds h.offers haccepts.adds fun ht => absurd ht haccepts.notOffer

theorem dispatch_offersKept (hm : Heap.Allocates malloc) (hs : s.server.transCache.Sound)
    (h : s.OffersKept) (hd : s.dispatch malloc env m = .ok s') :
    (∃ rv, DHCPServer.dispatch env.ownLists s.server m = .ok (rv, s'.server)) ∧ s'.OffersKept := by
  obtain ⟨hdisp, hbuffer, ⟨hlists, hrefs, hc⟩ | ⟨reply, hlists, hrefs, hcache⟩⟩ :=
    dispatch_cases hs hd
  · refine ⟨hdisp, ?_, ?_⟩
    · rw [hlists, hbuffer]
      exact h.buffer
    · unfold OfferKept
      rw [hc, hlists, hrefs, hbuffer]
      exact h.offers
  · obtain ⟨options, hlive⟩ := h.buffer
    have hfresh : malloc s.lists ≠ s.buffer := by
      intro heq
      rw [← heq, hm] at hlive
      cases hlive
    refine ⟨hdisp, ⟨options, ?_⟩, ?_⟩
    · rw [hlists, hbuffer]
      exact Heap.get_put_of_live hm hlive
    · have hkept : Referred s'.OfferKept s.server.transCache s.refs := by
        refine referred_mono ?_ h.offers
        intro q _ _ r _ hr ht
        obtain ⟨hne, hl⟩ := hr ht
        rw [hlists, hbuffer]
        exact ⟨hne, Heap.get_put_of_live hm hl⟩
      rw [hrefs]
      rcases hcache with hc | hadds
      · rw [hc, referred_same hkept]
        exact hkept
      · refine referred_adds hkept hadds fun _ => ?_
        rw [hlists, hbuffer]
        exact ⟨hfresh, Heap.get_put_self⟩

/-- A pass of the server with handles is one of the server without them, in which the list of the
cached DISCOVER is what its handle reaches. -/
theorem serve_refined (hm : Heap.Allocates malloc) (hs : s.server.transCache.Sound)
    (h : s.OffersKept) {e : Event} (hserve : s.serve malloc e = .ok s') {a : Server}
    (ha : s.server.Alike a) :
    s'.server.transCache.Sound ∧ s'.OffersKept ∧ ∃ memory a',
      DHCPServer.serve a ⟨{ e.env with memory := memory }, e.datagram⟩ = .ok a' ∧
        s'.server.Alike a' := by
  have htimers : (s.updateTimers e.env).server.Alike (DHCPServer.updateTimers e.env a) :=
    ha.updateTimers e.env
  unfold HandleServer.serve at hserve
  dsimp only at hserve
  cases hd : e.datagram with
  | none =>
    simp only [hd] at hserve
    cases hserve
    exact ⟨update_cache_sound _ hs, updateTimers_offersKept _ h, e.env.memory,
      DHCPServer.updateTimers e.env a, rfl, htimers⟩
  | some d =>
    simp only [hd] at hserve
    obtain ⟨s₁, hp, hserve⟩ := seq_ok.mp hserve
    obtain ⟨⟨accepted, s₂⟩, hacc, hserve⟩ := seq_ok.mp hserve
    obtain ⟨hkept₁, hparsed⟩ := parse_offersKept hm (updateTimers_offersKept e.env h) hp
    have hsound₁ : s₁.server.transCache.Sound :=
      hparsed.symm.sound (update_cache_sound _ hs)
    obtain ⟨hacc, hkept₂, hsound₂⟩ := accept_offersKept hsound₁ hkept₁ hacc
    obtain ⟨a₂, hacc', halike₂⟩ := accept_follows (hparsed.trans htimers) accepted s₂.server hacc
    cases accepted with
    | none =>
      cases hserve
      refine ⟨hsound₂, hkept₂, e.env.memory, a₂, seq_ok.mpr ⟨_, hacc', rfl⟩, halike₂⟩
    | some m =>
      obtain ⟨⟨rv, hdisp⟩, hkept⟩ := dispatch_offersKept hm hsound₂ hkept₂ hserve
      obtain ⟨options, hvalid⟩ := @validate_alike e.env _ _ m halike₂
      obtain ⟨a', hdisp', halike⟩ := dispatch_follows halike₂ (fun _ => hvalid) rv s'.server hdisp
      refine ⟨(dispatch_effect hsound₂ hdisp).sound hsound₂, hkept, fun _ => options, a', ?_, halike⟩
      exact seq_ok.mpr ⟨_, hacc', seq_ok.mpr ⟨_, hdisp', rfl⟩⟩

/-- Every run of the server with handles is one of the server without them, whose passes meet a
condition when those of the server with handles meet it whatever is read from the lists. -/
theorem run_refined {P : Server → Event → Prop} (hm : Heap.Allocates malloc)
    (h : Reachable (HandleServer.serve malloc)
      (fun s e => ∀ a memory, s.server.Alike a → P a ⟨{ e.env with memory := memory }, e.datagram⟩)
      (Started malloc) s) :
    ∃ a, Reachable DHCPServer.serve P DHCPServer.Started a ∧ s.server.Alike a := by
  have hinv : (s.server.transCache.Sound ∧ s.OffersKept) ∧
      ∃ a, Reachable DHCPServer.serve P DHCPServer.Started a ∧ s.server.Alike a := by
    refine h.invariant (P := fun s => (s.server.transCache.Sound ∧ s.OffersKept) ∧
      ∃ a, Reachable DHCPServer.serve P DHCPServer.Started a ∧ s.server.Alike a) ?_ ?_
    · intro s hstart
      obtain ⟨server, hserver, rfl⟩ := id hstart
      exact ⟨⟨started_sound hstart, started_offersKept hstart⟩, server, .start hserver, .refl _⟩
    · intro s e s' hs hcond hserve
      obtain ⟨⟨hsound, hkept⟩, a, hreach, ha⟩ := hs
      obtain ⟨hsound', hkept', memory, a', hstep, ha'⟩ := serve_refined hm hsound hkept hserve ha
      exact ⟨⟨hsound', hkept'⟩, a', hreach.next _ (hcond a memory ha) hstep, ha'⟩
  exact hinv.2

end HandleServer

end DHCPServer
