import DHCPServer.Server.Handles
import DHCPServer.Server.Startup

namespace DHCPServer

/-- The handle reaches a live list, the one that was there when the message was stored, and the
server sees the message with it. -/
def RefStable (lists : Heap (List DhcpOption)) (m : Message) (r : Ref) : Prop :=
  lists.get r.handle = some r.parsed ∧ m.dhcpOptions = r.parsed

/-- The same for all messages of a slot. -/
def SlotStable (lists : Heap (List DhcpOption)) (t : Transaction) (rs : List Ref) : Prop :=
  List.Forall₂ (RefStable lists) t.messages rs

/-- The same for the whole cache. -/
def HandleServer.Stable (s : HandleServer) : Prop :=
  List.Forall₂ (SlotStable s.lists) s.server.transCache s.refs

section Slots

variable {R R' : Message → Ref → Prop} {lists lists' : Heap (List DhcpOption)} {t t' : Transaction}
  {rs : List Ref} {cache cache' : TransactionCache} {refs : List (List Ref)} {r : Ref} {m : Message}

/-- Each message of the cache has a reference, and they meet a relation. -/
def Referred (R : Message → Ref → Prop) (cache : TransactionCache) (refs : List (List Ref)) : Prop :=
  List.Forall₂ (fun t rs => List.Forall₂ R t.messages rs) cache refs

/-- A slot that an update clears loses its references, any other one keeps them. -/
theorem slot_updated (h : List.Forall₂ R t.messages rs) (now : UInt32) :
    List.Forall₂ R (updatedSlot now t).messages (rs.take (updatedSlot now t).messages.length) := by
  rw [updatedSlot_messages]
  split
  · exact .nil
  · rw [h.length_eq, List.take_length]
    exact h

theorem referred_updated (now : UInt32) (h : Referred R cache refs) :
    Referred R (cache.map (updatedSlot now))
      (List.zipWith (fun t rs => rs.take t.messages.length) (cache.map (updatedSlot now)) refs) := by
  induction h with
  | nil => exact .nil
  | cons hslot _ ih => exact .cons (slot_updated hslot now) ih

theorem referred_mono (himp : ∀ m, ∀ rs ∈ refs, ∀ r ∈ rs, R m r → R' m r)
    (h : Referred R cache refs) : Referred R' cache refs := by
  apply forall₂_imp_mem h
  intro t rs hrs hslot
  apply forall₂_imp_mem hslot
  exact fun m r hr => himp m rs hrs r hr

/-- A slot that has got no new message keeps its references. -/
theorem slotRefs_same (h : List.Forall₂ R t.messages rs) (r : Ref) : slotRefs r t rs = rs := by
  rw [slotRefs, h.length_eq, List.take_left]

theorem referred_same (h : Referred R cache refs) (r : Ref) :
    List.zipWith (slotRefs r) cache refs = refs := by
  induction h with
  | nil => rfl
  | cons hslot _ ih => rw [List.zipWith_cons_cons, slotRefs_same hslot, ih]

/-- A message is copied into one slot, its handle with it. -/
theorem referred_adds (h : Referred R cache refs) (ha : cache.Adds cache' m) (hr : R m r) :
    Referred R cache' (List.zipWith (slotRefs r) cache' refs) := by
  obtain ⟨pre, t, t', post, rfl, rfl, hmsgs, -⟩ := ha.adds
  clear ha
  unfold Referred at h
  induction pre generalizing refs with
  | nil =>
    rw [List.nil_append, List.forall₂_cons_left_iff] at h
    obtain ⟨rs, refs, hslot, hrest, rfl⟩ := h
    have hrefs : slotRefs r t' rs = rs ++ [r] := by
      apply List.take_of_length_le
      rw [hmsgs, List.length_append, List.length_append, hslot.length_eq]
      exact le_rfl
    rw [List.nil_append, List.zipWith_cons_cons, hrefs, referred_same hrest]
    refine .cons ?_ hrest
    rw [hmsgs]
    exact List.rel_append hslot (.cons hr .nil)
  | cons q pre ih =>
    rw [List.cons_append, List.forall₂_cons_left_iff] at h
    obtain ⟨rs, refs, hslot, hrest, rfl⟩ := h
    rw [List.cons_append, List.zipWith_cons_cons, slotRefs_same hslot]
    exact .cons hslot (ih hrest)

/-- Memory may change as long as the lists of the cached messages stay. -/
theorem stable_mono (hkeep : ∀ rs ∈ refs, ∀ r ∈ rs, ∀ l, lists.get r.handle = some l →
      lists'.get r.handle = some l)
    (h : Referred (RefStable lists) cache refs) : Referred (RefStable lists') cache refs :=
  referred_mono (fun _ rs hrs r hr href => ⟨hkeep rs hrs r hr _ href.1, href.2⟩) h

/-- Through stable references the server sees the messages as they are. -/
theorem seenSlot_stable (h : List.Forall₂ (RefStable lists) t.messages rs) :
    seenSlot lists t rs = t := by
  have hmessages : List.zipWith (fun m r => m.setOptions ((lists.get r.handle).getD []))
      t.messages rs = t.messages := by
    generalize t.messages = messages at h
    induction h with
    | nil => rfl
    | @cons m r _ _ href _ ih =>
      have hm : m.setOptions ((lists.get r.handle).getD []) = m := by
        rw [href.1, Option.getD_some, ← href.2]
        rfl
      rw [List.zipWith_cons_cons, ih, hm]
  rw [seenSlot, hmessages]

theorem stable_seen (h : Referred (RefStable lists) cache refs) :
    List.zipWith (seenSlot lists) cache refs = cache := by
  induction h with
  | nil => rfl
  | cons hslot _ ih => rw [List.zipWith_cons_cons, seenSlot_stable hslot, ih]

end Slots

namespace HandleServer

variable {malloc : Heap (List DhcpOption) → Handle} {s s' : HandleServer} {env : Env}
  {d : Datagram} {m : Message} {accepted : Option Message}

theorem updateTimers_stable (env : Env) (h : s.Stable) : (s.updateTimers env).Stable := by
  unfold Stable HandleServer.updateTimers
  dsimp only
  rw [updateTimers_transCache]
  exact referred_updated env.now h

/-- Destroying the list of the buffer does no harm when no cached message refers to it. -/
theorem parse_stable (hm : Heap.Allocates malloc) (h : s.Stable)
    (hfree : ∀ ok m, receive s.server.dhcpMsg d = .ok (ok, m) → m.cookie = magicCookie →
      ∀ rs ∈ s.refs, ∀ r ∈ rs, r.handle ≠ s.buffer)
    (hp : s.parse malloc d = .ok s') :
    s'.Stable ∧ s'.server = s.server ∧
      ∀ m, receive s.server.dhcpMsg d = .ok (true, m) →
        s'.lists.get s'.buffer = some m.dhcpOptions := by
  obtain ⟨⟨ok, m⟩, hr, hp⟩ := seq_ok.mp hp
  dsimp only at hp
  split at hp
  · rename_i hc
    cases hp
    refine ⟨h, rfl, ?_⟩
    intro m' hr'
    rw [hr] at hr'
    cases hr'
    exact absurd (receive_cookie hr) hc
  · rename_i hc
    cases hp
    have hkeep : Referred (RefStable ((s.lists.free s.buffer).put
        (malloc (s.lists.free s.buffer)) m.dhcpOptions)) s.server.transCache s.refs := by
      refine stable_mono ?_ h
      intro rs hrs r hrr l hl
      have hne := hfree ok m hr (not_not.mp hc) rs hrs r hrr
      apply Heap.get_put_of_live hm
      rw [Heap.get_free_ne hne, hl]
    have hsame := stable_seen hkeep
    refine ⟨?_, ?_, ?_⟩
    · unfold Stable
      dsimp only [Server.setTransCache_transCache]
      rw [hsame]
      exact hkeep
    · dsimp only
      rw [hsame]
      rfl
    · intro m' hr'
      rw [hr] at hr'
      cases hr'
      exact Heap.get_put_self

/-- The copy in the cache shares the list of the buffer, which has just been parsed. -/
theorem accept_stable (hs : s.server.transCache.Sound) (h : s.Stable)
    (hbuffer : ∀ m, receive s.server.dhcpMsg d = .ok (true, m) →
      s.lists.get s.buffer = some m.dhcpOptions)
    (ha : s.accept env d = .ok (accepted, s')) :
    DHCPServer.accept env s.server d = .ok (accepted, s'.server) ∧ s'.Stable ∧
      s'.server.transCache.Sound := by
  obtain ⟨⟨accepted', server⟩, hacc, ha⟩ := seq_ok.mp ha
  cases ha
  refine ⟨hacc, ?_⟩
  rcases accept_cases hs hacc with ⟨-, -, hc⟩ | ⟨m, rfl, haccepts⟩
  · refine ⟨?_, by rwa [hc]⟩
    unfold Stable
    dsimp only
    rw [hc, referred_same h]
    exact h
  · obtain ⟨m', hr, rfl, hmsg⟩ := accept_received hacc
    refine ⟨?_, haccepts.adds.sound hs⟩
    apply referred_adds h haccepts.adds
    rw [hmsg]
    exact ⟨hbuffer m' hr, rfl⟩

/-- The handlers leave memory alone, or put the list of a reply there, which comes with a handle of
its own. -/
theorem dispatch_cases (hs : s.server.transCache.Sound) (hd : s.dispatch malloc env m = .ok s') :
    (∃ rv, DHCPServer.dispatch env.ownLists s.server m = .ok (rv, s'.server)) ∧
      s'.buffer = s.buffer ∧
      ((s'.lists = s.lists ∧ s'.refs = s.refs ∧ s'.server.transCache = s.server.transCache) ∨
        ∃ reply : Message, s'.lists = s.lists.put (malloc s.lists) reply.dhcpOptions ∧
          s'.refs = List.zipWith (slotRefs ⟨malloc s.lists, reply.dhcpOptions⟩)
            s'.server.transCache s.refs ∧
          (s'.server.transCache = s.server.transCache ∨
            s.server.transCache.Adds s'.server.transCache (reply.setTime env.now))) := by
  unfold HandleServer.dispatch at hd
  split at hd
  · cases hd
  obtain ⟨⟨rv, server⟩, hdisp, hd⟩ := seq_ok.mp hd
  obtain ⟨hsent, hc⟩ | ⟨reply, destination, -, -, -, hsent, hcache⟩ := dispatch_sends hs hdisp
  · have hnone : answer s.server server = none := by simp [answer, hsent]
    simp only [hnone] at hd
    cases hd
    exact ⟨⟨rv, hdisp⟩, rfl, .inl ⟨rfl, rfl, hc⟩⟩
  · have hsome : answer s.server server = some ⟨destination, (dhcpPacketBuild reply).2⟩ := by
      simp [answer, hsent]
    simp only [hsome] at hd
    cases hd
    refine ⟨⟨rv, hdisp⟩, rfl, .inr ⟨(dhcpPacketBuild reply).2, rfl, rfl, ?_⟩⟩
    exact hcache.imp And.left id

/-- A reply comes with a list of its own. -/
theorem dispatch_stable (hm : Heap.Allocates malloc) (hs : s.server.transCache.Sound)
    (h : s.Stable) (hd : s.dispatch malloc env m = .ok s') :
    (∃ rv, DHCPServer.dispatch env.ownLists s.server m = .ok (rv, s'.server)) ∧ s'.Stable := by
  obtain ⟨hdisp, -, ⟨hlists, hrefs, hc⟩ | ⟨reply, hlists, hrefs, hcache⟩⟩ := dispatch_cases hs hd
  · refine ⟨hdisp, ?_⟩
    unfold Stable
    rw [hc, hlists, hrefs]
    exact h
  · refine ⟨hdisp, ?_⟩
    have hkeep : Referred (RefStable (s.lists.put (malloc s.lists) reply.dhcpOptions))
        s.server.transCache s.refs :=
      stable_mono (fun _ _ _ _ _ hl => Heap.get_put_of_live hm hl) h
    unfold Stable
    rw [hlists, hrefs]
    rcases hcache with hc | hadds
    · rw [hc, referred_same hkeep]
      exact hkeep
    · exact referred_adds hkeep hadds ⟨Heap.get_put_self, rfl⟩

/-- When a packet with the right cookie comes in, no message of the cache refers to the list that
the packets are parsed into: the transaction of the last accepted message has ended. -/
def NotShared (s : HandleServer) (e : Event) : Prop :=
  ∀ d ok m, e.datagram = some d →
    receive (s.updateTimers e.env).server.dhcpMsg d = .ok (ok, m) → m.cookie = magicCookie →
    ∀ rs ∈ (s.updateTimers e.env).refs, ∀ r ∈ rs, r.handle ≠ s.buffer

/-- The message that a pass hands to its handler, and the server at this moment. -/
def handled (malloc : Heap (List DhcpOption) → Handle) (s : HandleServer) (e : Event) :
    Option (Message × HandleServer) :=
  e.datagram.bind fun d =>
    match (s.updateTimers e.env).parse malloc d >>= fun s => s.accept e.env d with
    | .ok (some m, s) => some (m, s)
    | _ => none

/-- What a pass that meets the condition does up to the handling of the packet: it keeps the lists,
and it does to the server what the server without handles does. -/
theorem received_stable (hm : Heap.Allocates malloc) (hs : s.server.transCache.Sound)
    (h : s.Stable) {e : Event} (hshare : s.NotShared e) (hd : e.datagram = some d)
    {s₁ : HandleServer} (hp : (s.updateTimers e.env).parse malloc d = .ok s₁)
    (ha : s₁.accept e.env d = .ok (accepted, s')) :
    DHCPServer.accept e.env (DHCPServer.updateTimers e.env s.server) d =
      .ok (accepted, s'.server) ∧ s'.Stable ∧ s'.server.transCache.Sound := by
  have hsound : (s.updateTimers e.env).server.transCache.Sound := update_cache_sound _ hs
  obtain ⟨hstable, hserver, hbuffer⟩ := parse_stable hm (updateTimers_stable e.env h)
    (fun ok m hr hc => hshare d ok m hd hr hc) hp
  rw [← hserver] at hsound hbuffer
  have hacc := accept_stable hsound hstable hbuffer ha
  rw [hserver] at hacc
  exact hacc

/-- A pass that meets the condition keeps the lists of the cached messages, and its server is that
of the model without handles in which every list is read as it was stored. -/
theorem serve_stable (hm : Heap.Allocates malloc) (hs : s.server.transCache.Sound) (h : s.Stable)
    {e : Event} (hshare : s.NotShared e) (hserve : s.serve malloc e = .ok s') :
    s'.server.transCache.Sound ∧ s'.Stable ∧
      DHCPServer.serve s.server ⟨e.env.ownLists, e.datagram⟩ = .ok s'.server := by
  unfold HandleServer.serve at hserve
  unfold DHCPServer.serve
  dsimp only at hserve ⊢
  cases hd : e.datagram with
  | none =>
    simp only [hd] at hserve
    cases hserve
    exact ⟨update_cache_sound _ hs, updateTimers_stable _ h, rfl⟩
  | some d =>
    simp only [hd] at hserve ⊢
    obtain ⟨s₁, hp, hserve⟩ := seq_ok.mp hserve
    obtain ⟨⟨accepted, s₂⟩, ha, hserve⟩ := seq_ok.mp hserve
    obtain ⟨hacc, hstable, hsound⟩ := received_stable hm hs h hshare hd hp ha
    cases accepted with
    | none =>
      cases hserve
      exact ⟨hsound, hstable, seq_ok.mpr ⟨_, hacc, rfl⟩⟩
    | some m =>
      obtain ⟨⟨rv, hdisp⟩, hstable'⟩ := dispatch_stable hm hsound hstable hserve
      refine ⟨(dispatch_effect hsound hdisp).sound hsound, hstable', ?_⟩
      exact seq_ok.mpr ⟨_, hacc, seq_ok.mpr ⟨_, hdisp, rfl⟩⟩

/-- The message that a lookup in the cache gives refers to the list it was stored with. -/
theorem Stable.retrieve (h : s.Stable) {xid type : UInt32}
    (hm : transCacheRetrieveMessage s.server.transCache xid type = some m) :
    ∃ r, s.retrieveRef xid type = some r ∧ s.lists.get r.handle = some r.parsed ∧
      m.dhcpOptions = r.parsed := by
  obtain ⟨t, ht, hsearch⟩ := Option.bind_eq_some_iff.mp hm
  obtain ⟨rs, hslot, hstable⟩ := find?_zip_of_forall₂ h ht
  obtain ⟨r, href, hr⟩ := find?_zip_of_forall₂ hstable hsearch
  refine ⟨r, ?_, hr.1, hr.2⟩
  rw [retrieveRef, hslot, Option.bind_some, href]
  rfl

/-- The states in which `dhcp_server_serve` enters its loop. -/
def Started (malloc : Heap (List DhcpOption) → Handle) (s : HandleServer) : Prop :=
  ∃ server, DHCPServer.Started server ∧ s = HandleServer.start malloc server

/-- At the start there are no messages in the cache. -/
theorem started_referred (R : Message → Ref → Prop) (h : Started malloc s) :
    Referred R s.server.transCache s.refs := by
  obtain ⟨server, ⟨cfg, files, now, rfl⟩, rfl⟩ := h
  have hempty := startup_all cfg files now fun _ => False
  show List.Forall₂ _ (startup cfg files now).transCache
    ((startup cfg files now).transCache.map fun _ => [])
  rw [List.forall₂_map_right_iff]
  refine List.forall₂_same.mpr fun t ht => ?_
  have hmessages : t.messages = [] := List.eq_nil_iff_forall_not_mem.mpr fun m => hempty t ht m
  rw [hmessages]
  exact .nil

theorem started_sound (h : Started malloc s) : s.server.transCache.Sound := by
  obtain ⟨server, ⟨cfg, files, now, rfl⟩, rfl⟩ := h
  exact startup_sound cfg files now

/-- All messages of the cache, and those that a lookup gives, refer to live lists, which are the
ones they were stored with. -/
structure ListsKept (s : HandleServer) : Prop where
  stable : s.Stable
  retrieved : ∀ xid type m, transCacheRetrieveMessage s.server.transCache xid type = some m →
    ∃ r, s.retrieveRef xid type = some r ∧ s.lists.get r.handle = some r.parsed ∧
      m.dhcpOptions = r.parsed

theorem Stable.listsKept (h : s.Stable) : s.ListsKept :=
  ⟨h, fun _ _ _ hm => h.retrieve hm⟩

theorem handled_stable (hm : Heap.Allocates malloc) (hs : s.server.transCache.Sound) (h : s.Stable)
    {e : Event} (hshare : s.NotShared e) {s₂ : HandleServer}
    (hh : s.handled malloc e = some (m, s₂)) : s₂.Stable := by
  unfold HandleServer.handled at hh
  obtain ⟨d, hd, hh⟩ := Option.bind_eq_some_iff.mp hh
  split at hh
  · rename_i m' s' hr
    cases hh
    obtain ⟨s₁, hp, ha⟩ := seq_ok.mp hr
    exact (received_stable hm hs h hshare hd hp ha).2.1
  · cases hh

/-- In every run in which a packet with the right cookie comes in only when the transaction of the
last accepted message has ended, the cached messages keep the lists they were stored with: between
the passes, and when a message is handled. The run is one of the server without handles. -/
theorem cached_lists_kept (hm : Heap.Allocates malloc)
    (h : Reachable (HandleServer.serve malloc) NotShared (Started malloc) s) :
    s.ListsKept ∧
    (∀ e m s₂, s.NotShared e → s.handled malloc e = some (m, s₂) → s₂.ListsKept) ∧
    Reachable DHCPServer.serve PassCondition.always.Holds DHCPServer.Started s.server := by
  have hinv : (s.server.transCache.Sound ∧ s.Stable) ∧
      Reachable DHCPServer.serve PassCondition.always.Holds DHCPServer.Started s.server := by
    refine h.invariant (P := fun s => (s.server.transCache.Sound ∧ s.Stable) ∧
      Reachable DHCPServer.serve PassCondition.always.Holds DHCPServer.Started s.server) ?_ ?_
    · intro s hstart
      refine ⟨⟨started_sound hstart, started_referred _ hstart⟩, .start ?_⟩
      obtain ⟨server, hserver, rfl⟩ := hstart
      exact hserver
    · intro s e s' hs hshare hserve
      obtain ⟨hsound, hstable, hstep⟩ := serve_stable hm hs.1.1 hs.1.2 hshare hserve
      exact ⟨⟨hsound, hstable⟩, hs.2.next _ (PassCondition.always_holds _ _) hstep⟩
  obtain ⟨⟨hsound, hstable⟩, hreach⟩ := hinv
  refine ⟨hstable.listsKept, ?_, hreach⟩
  intro e m s₂ hshare hh
  exact (handled_stable hm hsound hstable hshare hh).listsKept

/-- No message of the cache refers to the list of the buffer. -/
def sharesNone (s : HandleServer) (e : Event) : Bool :=
  (s.updateTimers e.env).refs.all fun rs => rs.all fun r => r.handle != s.buffer

theorem sharesNone_notShared (s : HandleServer) (e : Event) (h : sharesNone s e = true) :
    s.NotShared e := by
  intro d ok m _ _ _ rs hrs r hr
  have hrow := List.all_eq_true.mp h rs hrs
  simpa using List.all_eq_true.mp hrow r hr

theorem smallServer_startedIn (malloc : Heap (List DhcpOption) → Handle) :
    Started malloc (HandleServer.start malloc smallServer) :=
  ⟨smallServer, smallServer_started, rfl⟩

/-- The second client comes in when the first one's transaction is over. -/
theorem distant_discovers_keep_lists :
    ∃ s, Reachable (HandleServer.serve Heap.nextHandle) NotShared (Started Heap.nextHandle) s ∧
      s.server.sent.length = 2 ∧ s.ListsKept := by
  have hrun : ([discoverBy 1001 7 1, discoverBy 1100 8 2].foldlM
      (Reachable.checked (HandleServer.serve Heap.nextHandle) sharesNone)
      (HandleServer.start Heap.nextHandle smallServer)).any
        (fun s => s.server.sent.length == 2) = true := by decide +kernel
  obtain ⟨s, hs, hlen⟩ := Reachable.of_run sharesNone_notShared _
    (smallServer_startedIn Heap.nextHandle) hrun
  exact ⟨s, hs, by simpa using hlen, (cached_lists_kept Heap.nextHandle_allocates hs).1⟩

/-- When a REQUEST follows its DISCOVER, the list of the DISCOVER has been destroyed by the time
the two are compared. -/
theorem discover_list_lost_at_request :
    ¬∀ malloc s e m s₂, Heap.Allocates malloc →
      Reachable (HandleServer.serve malloc) (fun _ _ => True) (Started malloc) s →
      s.handled malloc e = some (m, s₂) → s₂.ListsKept := by
  intro h
  have hrun : ([discoverBy 1001 7 1].foldlM
      (Reachable.checked (HandleServer.serve Heap.nextHandle) fun _ _ => true)
      (HandleServer.start Heap.nextHandle smallServer)).any (fun s =>
        (s.handled Heap.nextHandle (requestBy 1002 7 1 1)).any fun x =>
          (transCacheRetrieveMessage x.2.server.transCache 7 MsgType.discover).isSome &&
          ((x.2.retrieveRef 7 MsgType.discover).all fun r => (x.2.lists.get r.handle).isNone)) =
      true := by decide +kernel
  obtain ⟨s, hs, hq⟩ := Reachable.of_run (fun _ _ _ => trivial) _
    (smallServer_startedIn Heap.nextHandle) hrun
  obtain ⟨⟨m, s₂⟩, hh, hq⟩ := (Option.any_eq_true _ _).mp hq
  obtain ⟨hsome, hdead⟩ := Bool.and_eq_true_iff.mp hq
  obtain ⟨discover, hfound⟩ := Option.isSome_iff_exists.mp hsome
  obtain ⟨r, hr, hlive, -⟩ := (h _ s _ m s₂ Heap.nextHandle_allocates hs hh).retrieved 7
    MsgType.discover discover hfound
  simp [hr, hlive] at hdead

end HandleServer

end DHCPServer
