import DHCPServer.Server.Runs

namespace DHCPServer

/-- The message without the option list that its copy in the cache shares with the receive buffer.
The OFFERs in the cache are the server's own and keep theirs. -/
def Message.bare (m : Message) : Message := if m.type = MsgType.offer then m else m.setOptions []

def Transaction.bare (t : Transaction) : Transaction :=
  { t with messages := t.messages.map Message.bare }

def TransactionCache.bare (cache : TransactionCache) : TransactionCache := cache.map Transaction.bare

/-- The servers differ at most in the option lists of received messages in the cache. -/
structure Server.Alike (s s' : Server) : Prop where
  others : s' = s.setTransCache s'.transCache
  caches : s'.transCache.bare = s.transCache.bare

section Bare

variable {m : Message} {t : Transaction} {cache cache' : TransactionCache}

@[simp] theorem bare_type : m.bare.type = m.type := by
  unfold Message.bare
  split <;> rfl

@[simp] theorem bare_xid : m.bare.xid = m.xid := by
  unfold Message.bare
  split <;> rfl

@[simp] theorem bare_yiaddr : m.bare.yiaddr = m.yiaddr := by
  unfold Message.bare
  split <;> rfl

@[simp] theorem bare_mac : m.bare.mac = m.mac := by
  unfold Message.bare
  split <;> rfl

theorem bare_setTime (now : UInt32) : (m.setTime now).bare = m.bare.setTime now := by
  unfold Message.bare
  rw [setTime_type]
  split <;> rfl

theorem bare_setOptions (options : List DhcpOption) (h : m.type ≠ MsgType.offer) :
    (m.setOptions options).bare = m.bare := by
  unfold Message.bare
  rw [setOptions_type, if_neg h, if_neg h]
  rfl

theorem bare_of_offer (h : m.type = MsgType.offer) : m.bare = m := if_pos h

theorem setOptions_bare (options : List DhcpOption) :
    m.bare.setOptions options = m.setOptions options := by
  unfold Message.bare
  split <;> rfl

theorem transAdd_bare (now : UInt32) :
    transAdd now t.bare m.bare = ((transAdd now t m).1, (transAdd now t m).2.bare) := by
  have hxid : t.bare.xid = t.xid := rfl
  have hmessages : t.bare.messages ++ [m.bare] = (t.messages ++ [m]).map Message.bare := by
    rw [List.map_append]
    rfl
  unfold transAdd
  rw [bare_xid, hxid, hmessages]
  split <;> rfl

theorem transSearchFor_bare (type : UInt32) :
    transSearchFor t.bare type = (transSearchFor t type).map Message.bare := by
  have hfind : transSearchFor t.bare type =
      (t.messages.find? ((fun m => m.type == type) ∘ Message.bare)).map Message.bare :=
    List.find?_map
  have htype : (fun m : Message => m.type == type) ∘ Message.bare = fun m => m.type == type :=
    funext fun m => by simp
  rw [hfind, htype, transSearchFor]

theorem transSearchForLast_bare (type : UInt32) :
    transSearchForLast t.bare type = (transSearchForLast t type).map Message.bare := by
  unfold transSearchForLast Transaction.bare
  have hgen : ∀ (l : List Message) (last : Option Message),
      (l.map Message.bare).foldl (fun last m => if m.type == type then some m else last)
        (last.map Message.bare) =
      (l.foldl (fun last m => if m.type == type then some m else last) last).map Message.bare := by
    intro l
    induction l with
    | nil => exact fun _ => rfl
    | cons m l ih =>
      intro last
      rw [List.map_cons, List.foldl_cons, List.foldl_cons, ← ih, bare_type]
      split <;> rfl
  exact hgen t.messages none

theorem retrieveTransaction_bare (xid : UInt32) :
    transCacheRetrieveTransaction cache.bare xid =
      (transCacheRetrieveTransaction cache xid).map Transaction.bare :=
  List.find?_map

theorem retrieveMessage_bare (xid type : UInt32) :
    transCacheRetrieveMessage cache.bare xid type =
      (transCacheRetrieveMessage cache xid type).map Message.bare := by
  unfold transCacheRetrieveMessage
  rw [retrieveTransaction_bare]
  cases transCacheRetrieveTransaction cache xid with
  | none => rfl
  | some t => exact transSearchFor_bare type

theorem retrieveMessageLast_bare (xid type : UInt32) :
    transCacheRetrieveMessageLast cache.bare xid type =
      (transCacheRetrieveMessageLast cache xid type).map Message.bare := by
  unfold transCacheRetrieveMessageLast
  rw [retrieveTransaction_bare]
  cases transCacheRetrieveTransaction cache xid with
  | none => rfl
  | some t => exact transSearchForLast_bare type

theorem addMessage_bare (now : UInt32) :
    transCacheAddMessage now cache.bare m.bare =
      ((transCacheAddMessage now cache m).1, (transCacheAddMessage now cache m).2.bare) := by
  have hxid : (m.setTime now).bare.xid = (m.setTime now).xid := bare_xid
  have hfirst : onFirst (·.xid == (m.setTime now).bare.xid) (transAdd now · (m.setTime now).bare)
      (cache.map Transaction.bare) =
      (onFirst (·.xid == (m.setTime now).xid) (transAdd now · (m.setTime now)) cache).map
        fun r => (r.1, r.2.map Transaction.bare) := by
    apply onFirst_map
    · intro t
      rw [hxid]
      rfl
    · exact fun t => transAdd_bare now
  have hidle : onFirst (!·.timer.isRunning)
      (fun t => transAdd now (transClear now t) (m.setTime now).bare) (cache.map Transaction.bare) =
      (onFirst (!·.timer.isRunning) (fun t => transAdd now (transClear now t) (m.setTime now))
        cache).map fun r => (r.1, r.2.map Transaction.bare) := by
    apply onFirst_map
    · exact fun _ => rfl
    · exact fun t => transAdd_bare (t := transClear now t) now
  unfold transCacheAddMessage
  dsimp only
  rw [← bare_setTime, TransactionCache.bare, hfirst, hidle]
  cases onFirst (·.xid == (m.setTime now).xid) (transAdd now · (m.setTime now)) cache with
  | some res => rfl
  | none =>
    cases onFirst (!·.timer.isRunning) (fun t => transAdd now (transClear now t) (m.setTime now))
      cache with
    | some res => rfl
    | none => rfl

theorem associatedTransactions_bare (mac : Mac) :
    associatedTransactions mac cache.bare = associatedTransactions mac cache := by
  have hcounted : ∀ t : Transaction,
      (t.bare.timer.isRunning && (transGetIndex t.bare 0).any fun m => decide (mac = m.mac)) =
        (t.timer.isRunning && (transGetIndex t 0).any fun m => decide (mac = m.mac)) := by
    intro t
    have hindex : transGetIndex t.bare 0 = (transGetIndex t 0).map Message.bare := List.getElem?_map
    rw [hindex]
    cases transGetIndex t 0 with
    | none => rfl
    | some m => simp [Transaction.bare]
  unfold associatedTransactions TransactionCache.bare
  rw [List.filter_map, List.length_map]
  exact congrArg List.length (congrArg (List.filter · cache) (funext hcounted))

theorem dynamicAclCheck_bare (acl : Acl) (mac : Mac) :
    dynamicAclCheck acl mac cache.bare = dynamicAclCheck acl mac cache := by
  have hlength : cache.bare.length = cache.length := List.length_map _
  unfold dynamicAclCheck
  rw [associatedTransactions_bare, hlength]

theorem returnedAddress_bare : returnedAddress t.bare = returnedAddress t := by
  unfold returnedAddress
  rw [transSearchFor_bare, transSearchFor_bare]
  cases transSearchFor t MsgType.offer with
  | none => rfl
  | some offer => simp

theorem returnedAddresses_bare (now : UInt32) :
    returnedAddresses now cache.bare = returnedAddresses now cache := by
  unfold returnedAddresses TransactionCache.bare
  rw [List.filter_map, List.filterMap_map]
  have hexpires : expires now ∘ Transaction.bare = expires now := rfl
  have hreturned : returnedAddress ∘ Transaction.bare = returnedAddress :=
    funext fun _ => returnedAddress_bare
  rw [hexpires, hreturned]

theorem updatedSlot_bare (now : UInt32) : updatedSlot now t.bare = (updatedSlot now t).bare := by
  have hexpires : expires now t.bare = expires now t := rfl
  unfold updatedSlot
  rw [hexpires]
  split <;> rfl

theorem sound_bare : t.bare.Sound ↔ t.Sound := by
  have hnil : t.bare.messages = [] ↔ t.messages = [] := List.map_eq_nil_iff
  have hxids : (∀ m ∈ t.bare.messages, m.xid = t.xid) ↔ ∀ m ∈ t.messages, m.xid = t.xid := by
    simp [Transaction.bare]
  constructor
  · intro h
    exact ⟨h.once, fun hi => (h.idle hi).imp_left hnil.mp, hxids.mp h.xids⟩
  · intro h
    exact ⟨h.once, fun hi => (h.idle hi).imp_left hnil.mpr, hxids.mpr h.xids⟩

end Bare

namespace Server.Alike

variable {s s' : Server}

theorem refl (s : Server) : s.Alike s := ⟨rfl, rfl⟩

theorem symm (h : s.Alike s') : s'.Alike s := by
  refine ⟨?_, h.caches.symm⟩
  rw [h.others]
  rfl

theorem trans {s'' : Server} (h : s.Alike s') (h' : s'.Alike s'') : s.Alike s'' := by
  refine ⟨?_, h'.caches.trans h.caches⟩
  rw [h'.others, h.others]
  rfl

/-- The other server, as the first one with another cache. -/
theorem cases (h : s.Alike s') :
    ∃ cache, s' = s.setTransCache cache ∧ cache.bare = s.transCache.bare :=
  ⟨s'.transCache, h.others, h.caches⟩

/-- What the bare cache decides is the same for both. -/
theorem dynamicAclCheck (h : s.Alike s') (acl : Acl) (mac : Mac) :
    DHCPServer.dynamicAclCheck acl mac s'.transCache =
      DHCPServer.dynamicAclCheck acl mac s.transCache := by
  rw [← dynamicAclCheck_bare, h.caches, dynamicAclCheck_bare]

theorem addMessage (h : s.Alike s') (now : UInt32) (m : Message) :
    (transCacheAddMessage now s'.transCache m).1 = (transCacheAddMessage now s.transCache m).1 ∧
      (transCacheAddMessage now s'.transCache m).2.bare =
        (transCacheAddMessage now s.transCache m).2.bare := by
  have hadd : transCacheAddMessage now s.transCache.bare m.bare =
      ((transCacheAddMessage now s.transCache m).1,
        (transCacheAddMessage now s.transCache m).2.bare) := addMessage_bare now
  rw [← h.caches, addMessage_bare, Prod.mk.injEq] at hadd
  exact hadd

/-- An OFFER in the cache is the same for both. -/
theorem retrieveOffer (h : s.Alike s') (xid : UInt32) :
    transCacheRetrieveMessage s'.transCache xid MsgType.offer =
      transCacheRetrieveMessage s.transCache xid MsgType.offer := by
  have hbare : ∀ cache : TransactionCache,
      (transCacheRetrieveMessage cache xid MsgType.offer).map Message.bare =
        transCacheRetrieveMessage cache xid MsgType.offer := by
    intro cache
    cases hfound : transCacheRetrieveMessage cache xid MsgType.offer with
    | none => rfl
    | some m =>
      obtain ⟨t, -, hsearch⟩ := Option.bind_eq_some_iff.mp hfound
      have htype : m.type = MsgType.offer := by simpa using List.find?_some hsearch
      rw [Option.map_some, bare_of_offer htype]
  rw [← hbare s'.transCache, ← retrieveMessage_bare, h.caches, retrieveMessage_bare, hbare]

theorem sound (h : s.Alike s') (hs : s.transCache.Sound) : s'.transCache.Sound := by
  intro t ht
  have hmem : t.bare ∈ s'.transCache.bare := List.mem_map_of_mem ht
  rw [h.caches] at hmem
  obtain ⟨t₀, ht₀, hbare⟩ := List.mem_map.mp hmem
  rw [← sound_bare, ← hbare, sound_bare]
  exact hs t₀ ht₀

theorem updateTimers (h : s.Alike s') (env : Env) :
    (DHCPServer.updateTimers env s).Alike (DHCPServer.updateTimers env s') := by
  obtain ⟨cache, rfl, hc⟩ := h.cases
  have hreturned : returnedAddresses env.now cache = returnedAddresses env.now s.transCache := by
    rw [← returnedAddresses_bare, hc, returnedAddresses_bare]
  have hafter : afterTransactions env.now (s.setTransCache cache) =
      (afterTransactions env.now s).setTransCache (cache.map (updatedSlot env.now)) := by
    unfold afterTransactions
    rw [Server.setTransCache_transCache, hreturned]
    rfl
  refine ⟨?_, ?_⟩
  · have hdue : checkDue env.now (s.setTransCache cache) = checkDue env.now s := rfl
    rw [updateTimers_transCache, updateTimers_eq, updateTimers_eq, hafter, hdue]
    split <;> rfl
  · have hmap : ∀ cache : TransactionCache,
        TransactionCache.bare (cache.map (updatedSlot env.now)) =
          cache.bare.map (updatedSlot env.now) := by
      intro cache
      unfold TransactionCache.bare
      rw [List.map_map, List.map_map]
      exact List.map_congr_left fun t _ => (updatedSlot_bare env.now).symm
    rw [updateTimers_transCache, updateTimers_transCache, hmap, hmap]
    exact congrArg (List.map (updatedSlot env.now)) hc

end Server.Alike

/-- What the one computation comes to, the other one comes to as well, with an alike server. -/
def Follows {β : Type} (r r' : Except Fault (β × Server)) : Prop :=
  ∀ b t, r = .ok (b, t) → ∃ t', r' = .ok (b, t') ∧ t.Alike t'

namespace Follows

variable {α β γ : Type} {s s' : Server} {r₁ r₁' r₂ r₂' : Except Fault (β × Server)}

theorem ok (h : s.Alike s') (b : β) : Follows (.ok (b, s)) (.ok (b, s')) := by
  intro c t hr
  cases hr
  exact ⟨s', rfl, h⟩

/-- The same without a fault. -/
theorem pair {x x' : β × Server} (h : Follows (.ok x) (.ok x')) : x'.1 = x.1 ∧ x.2.Alike x'.2 := by
  obtain ⟨t', ht', halike⟩ := h x.1 x.2 rfl
  cases ht'
  exact ⟨rfl, halike⟩

theorem ite {c : Prop} [Decidable c] (h₁ : Follows r₁ r₁') (h₂ : Follows r₂ r₂') :
    Follows (if c then r₁ else r₂) (if c then r₁' else r₂') := by
  split
  · exact h₁
  · exact h₂

/-- Both go on with the result of one computation. -/
theorem bind {x : Except Fault α} {k k' : α → Except Fault (β × Server)}
    (h : ∀ a, Follows (k a) (k' a)) : Follows (x >>= k) (x >>= k') := by
  intro b t hr
  obtain ⟨a, hx, hk⟩ := seq_ok.mp hr
  obtain ⟨t', hk', halike⟩ := h a b t hk
  exact ⟨t', seq_ok.mpr ⟨a, hx, hk'⟩, halike⟩

/-- Each goes on from where it has come to. -/
theorem seq {x x' : Except Fault (γ × Server)} {k k' : γ × Server → Except Fault (β × Server)}
    (hx : Follows x x') (h : ∀ c t t', t.Alike t' → Follows (k (c, t)) (k' (c, t'))) :
    Follows (x >>= k) (x' >>= k') := by
  intro b t hr
  obtain ⟨⟨c, u⟩, hu, hk⟩ := seq_ok.mp hr
  obtain ⟨u', hu', halike⟩ := hx c u hu
  obtain ⟨t', hk', halike'⟩ := h c u u' halike b t hk
  exact ⟨t', seq_ok.mpr ⟨(c, u'), hu', hk'⟩, halike'⟩

end Follows

section Handlers

variable {env : Env} {s s' : Server} {d : Datagram} {m : Message}

theorem accept_follows (h : s.Alike s') : Follows (accept env s d) (accept env s' d) := by
  obtain ⟨cache, rfl, hc⟩ := h.cases
  unfold accept
  refine .bind fun x => ?_
  obtain ⟨ok, m⟩ := x
  have hacl : ((s.setTransCache cache).setDhcpMsg m).acl = (s.setDhcpMsg m).acl := rfl
  have hdacl : dynamicAclCheck ((s.setTransCache cache).setDhcpMsg m).dacl m.mac cache =
      dynamicAclCheck (s.setDhcpMsg m).dacl m.mac s.transCache := h.dynamicAclCheck s.dacl m.mac
  obtain ⟨hstored, hadded⟩ := h.addMessage env.now m
  rw [Server.setTransCache_transCache] at hstored hadded
  simp only [Server.setDhcpMsg_transCache, Server.setDacl_transCache,
    Server.setTransCache_transCache, hacl, hdacl, hstored]
  refine .ite (.ok ⟨rfl, hc⟩ _) (.ite (.ok ⟨rfl, hc⟩ _) (.ite (.ok ⟨rfl, hc⟩ _) ?_))
  refine .ite (.ok ⟨rfl, hc⟩ _) (.ite (.ok ⟨rfl, hc⟩ _) ?_)
  exact .ite (.ok ⟨rfl, hadded⟩ _) (.ok ⟨rfl, hadded⟩ _)

theorem deliver_follows (h : s.Alike s') (reply : Message) (destination : UInt32) :
    Follows (.ok (deliver env s reply destination)) (.ok (deliver env s' reply destination)) := by
  obtain ⟨cache, rfl, hc⟩ := h.cases
  obtain ⟨hstored, hadded⟩ := h.addMessage env.now (dhcpPacketBuild reply).2
  rw [Server.setTransCache_transCache] at hstored hadded
  unfold deliver
  dsimp only
  split
  · exact .ok h _
  split
  · exact .ok h _
  · simp only [Server.pushSent_transCache, Server.setTransCache_transCache, hstored]
    exact .ok ⟨rfl, hadded⟩ _

theorem offerBuild_follows (h : s.Alike s') (address duration : UInt32) :
    Follows (messageDhcpofferBuild env s m address duration)
      (messageDhcpofferBuild env s' m address duration) := by
  obtain ⟨cache, rfl, -⟩ := h.cases
  refine .bind fun options => ?_
  cases options with
  | none => exact .ok h _
  | some options => exact deliver_follows h _ _

theorem sendAck_follows (h : s.Alike s') (ack : Message)
    (options : Except Fault (Option (List DhcpOption))) :
    Follows (sendAck env s ack options) (sendAck env s' ack options) := by
  obtain ⟨cache, rfl, -⟩ := h.cases
  refine .bind fun options => ?_
  cases options with
  | none => exact .ok h _
  | some options => exact deliver_follows h _ _

theorem nakBuild_follows (h : s.Alike s') :
    Follows (.ok (messageDhcpnakBuild env s m)) (.ok (messageDhcpnakBuild env s' m)) := by
  obtain ⟨cache, rfl, -⟩ := h.cases
  unfold messageDhcpnakBuild
  dsimp only [Server.setTransCache_allocator]
  cases dhcpOptionBuildRequiredOptions [0] s.allocator.defaultOptions s.allocator.defaultOptions []
    [0] [54, 0] 6 with
  | none => exact .ok h _
  | some options => exact deliver_follows h _ _

theorem discoverHandle_follows (h : s.Alike s') :
    Follows (messageDhcpdiscoverHandle env s m) (messageDhcpdiscoverHandle env s' m) := by
  obtain ⟨cache, rfl, hc⟩ := h.cases
  refine .ite (.ok ⟨rfl, hc⟩ _) (.ite (.ok ⟨rfl, hc⟩ _) ?_)
  exact .seq (offerBuild_follows ⟨rfl, hc⟩ _ _) fun _ _ _ halike => .ok halike _

/-- The comparison comes out the same when the DISCOVER of the one cache is read with the list of
the DISCOVER of the other one. -/
theorem validate_alike (h : s.Alike s') : ∃ options,
    validateClientIdAndRequestedParams (Env.seen { env with memory := fun _ => options } s'.transCache)
      m = validateClientIdAndRequestedParams (env.ownLists.seen s.transCache) m := by
  have hbare : (transCacheRetrieveMessage s'.transCache m.xid MsgType.discover).map Message.bare =
      (transCacheRetrieveMessage s.transCache m.xid MsgType.discover).map Message.bare := by
    rw [← retrieveMessage_bare, h.caches, retrieveMessage_bare]
  unfold validateClientIdAndRequestedParams
  simp only [seen_retrieve]
  cases hl : transCacheRetrieveMessage s.transCache m.xid MsgType.discover with
  | none =>
    rw [hl, Option.map_none, Option.map_eq_none_iff] at hbare
    rw [hbare]
    exact ⟨[], rfl⟩
  | some discover =>
    rw [hl, Option.map_some, Option.map_eq_some_iff] at hbare
    obtain ⟨discover', hl', hsame⟩ := hbare
    have hread : discover'.setOptions discover.dhcpOptions =
        discover.setOptions discover.dhcpOptions := by
      rw [← setOptions_bare, hsame, setOptions_bare]
    refine ⟨discover.dhcpOptions, ?_⟩
    rw [hl', Option.map_some, hread]
    rfl

theorem retrieveClientAddress_alike (h : s.Alike s') :
    retrieveClientAddress m s'.transCache = retrieveClientAddress m s.transCache := by
  unfold retrieveClientAddress
  rw [h.retrieveOffer]

section Memory

variable {memory : Message → List DhcpOption}

theorem commitLease_follows (h : s.Alike s') (leaseTime address : UInt32) :
    Follows (.ok (dhcpRequstCommitLease env s m leaseTime address))
      (.ok (dhcpRequstCommitLease { env with memory := memory } s' m leaseTime address)) := by
  obtain ⟨cache, rfl, hc⟩ := h.cases
  unfold dhcpRequstCommitLease
  dsimp only [Server.setTransCache_allocator]
  cases allocatorGetPoolByAddress s.allocator address with
  | none => exact .ok h _
  | some pool => exact .ok ⟨rfl, hc⟩ _

/-- The comparison with the cached DISCOVER is the one place where the lists of received messages
are read. -/
theorem responseToOffer_follows (h : s.Alike s')
    (hvalid : validateClientIdAndRequestedParams
        (Env.seen { env with memory := memory } s'.transCache) m =
      validateClientIdAndRequestedParams (env.seen s.transCache) m) (o54 : DhcpOption) :
    Follows (dhcpRequestResponseToOffer env s m o54)
      (dhcpRequestResponseToOffer { env with memory := memory } s' m o54) := by
  have haddress := retrieveClientAddress_alike (m := m) h
  obtain ⟨cache, rfl, hc⟩ := h.cases
  unfold dhcpRequestResponseToOffer
  rw [hvalid, haddress]
  refine .ite (.ok h _) (.ite (.ok h _) (.ite (.ok h _) (.ite (.ok h _) (.ite (.ok h _) ?_))))
  refine .bind fun leaseTime => .ite (.ok h _) ?_
  have hfollows := @commitLease_follows env _ _ m memory h leaseTime
    (retrieveClientAddress m s.transCache)
  obtain ⟨hstatus, halike⟩ := hfollows.pair
  cases hcommit : dhcpRequstCommitLease env s m leaseTime (retrieveClientAddress m s.transCache) with
  | mk status t =>
  cases hcommit' : dhcpRequstCommitLease { env with memory := memory } (s.setTransCache cache) m
      leaseTime (retrieveClientAddress m s.transCache) with
  | mk status' t' =>
  rw [hcommit, hcommit'] at hstatus halike
  dsimp only at hstatus halike
  subst hstatus
  cases status' <;> exact .ok halike _

theorem renewLease_follows (h : s.Alike s') :
    Follows (dhcpRequestRenewLease env s m)
      (dhcpRequestRenewLease { env with memory := memory } s' m) := by
  obtain ⟨cache, rfl, hc⟩ := h.cases
  unfold dhcpRequestRenewLease
  refine .ite (.ok h _) ?_
  dsimp only [Server.setTransCache_leases, Server.setTransCache_allocator]
  cases leaseRetrieveAddress s.leases m.ciaddr s.allocator.addressPools with
  | none => exact .ok h _
  | some lease =>
    refine .ite (.ok h _) (.ite (.ok ⟨rfl, hc⟩ _) ?_)
    exact .bind fun leaseTime => .ok ⟨rfl, hc⟩ _

theorem requestHandle_follows (h : s.Alike s')
    (hvalid : validateClientIdAndRequestedParams
        (Env.seen { env with memory := memory } s'.transCache) m =
      validateClientIdAndRequestedParams (env.seen s.transCache) m) :
    Follows (messageDhcprequestHandle env s m)
      (messageDhcprequestHandle { env with memory := memory } s' m) := by
  unfold messageDhcprequestHandle
  cases m.option Tag.serverIdentifier with
  | none =>
    refine .ite (.ok h _) (.seq (renewLease_follows h) fun _ t t' halike => ?_)
    obtain ⟨cache, rfl, hc⟩ := halike.cases
    exact .seq (sendAck_follows halike _ _) fun _ _ _ halike' => .ok halike' _
  | some o54 =>
    refine .seq (responseToOffer_follows h hvalid o54) fun status t t' halike => ?_
    have hnak : Follows
        (.ok (messageDhcpnakBuild env t m) >>= fun x => .ok (if x.1 then 0 else status.code, x.2))
        (.ok (messageDhcpnakBuild env t' m) >>= fun x => .ok (if x.1 then 0 else status.code, x.2)) :=
      .seq (nakBuild_follows halike) fun _ _ _ halike' => .ok halike' _
    cases status with
    | commitError => exact hnak
    | invalid => exact hnak
    | error => exact hnak
    | differentServerIdentificator => exact .ok halike _
    | ok =>
      obtain ⟨cache, rfl, hc⟩ := halike.cases
      refine .bind fun o50 => ?_
      exact .seq (sendAck_follows halike _ _) fun _ _ _ halike' => .ok halike' _

theorem releaseHandle_follows (h : s.Alike s') :
    Follows (.ok (messageDhcpreleaseHandle env s m)) (.ok (messageDhcpreleaseHandle env s' m)) := by
  obtain ⟨cache, rfl, hc⟩ := h.cases
  unfold messageDhcpreleaseHandle
  dsimp only [Server.setTransCache_leases, Server.setTransCache_allocator]
  split
  · exact .ok h _
  cases leaseRetrieveAddress s.leases m.ciaddr s.allocator.addressPools with
  | none => exact .ok h _
  | some lease =>
    dsimp only
    split
    · exact .ok ⟨rfl, hc⟩ _
    · exact .ok ⟨rfl, hc⟩ _

/-- Of an ACK in the cache only the address is read. -/
theorem declineHandle_follows (h : s.Alike s') :
    Follows (.ok (messageDhcpdeclineHandle s m)) (.ok (messageDhcpdeclineHandle s' m)) := by
  obtain ⟨cache, rfl, hc⟩ := h.cases
  have hack : (transCacheRetrieveMessageLast cache m.xid MsgType.ack).map Message.bare =
      (transCacheRetrieveMessageLast s.transCache m.xid MsgType.ack).map Message.bare := by
    rw [← retrieveMessageLast_bare, hc, retrieveMessageLast_bare]
  unfold messageDhcpdeclineHandle
  dsimp only [Server.setTransCache_transCache]
  cases hl : transCacheRetrieveMessageLast s.transCache m.xid MsgType.ack with
  | none =>
    rw [hl, Option.map_none, Option.map_eq_none_iff] at hack
    rw [hack]
    exact .ok h _
  | some ack =>
    rw [hl, Option.map_some, Option.map_eq_some_iff] at hack
    obtain ⟨ack', hl', hbare⟩ := hack
    have hyiaddr : ack'.yiaddr = ack.yiaddr := by
      rw [← bare_yiaddr, hbare, bare_yiaddr]
    rw [hl']
    simp only [Server.setTransCache_allocator, hyiaddr]
    split
    · exact .ok h _
    split
    · exact .ok ⟨rfl, hc⟩ _
    · exact .ok h _

theorem informHandle_follows (h : s.Alike s') :
    Follows (messageDhcpinformHandle env s m) (messageDhcpinformHandle env s' m) := by
  obtain ⟨cache, rfl, hc⟩ := h.cases
  refine .seq (.ite (.ok h _) ?_) fun _ _ _ halike => .ok halike _
  exact sendAck_follows h _ _

/-- The handlers do the same whatever the lists are, as long as the comparison of a REQUEST comes
out the same. -/
theorem dispatch_follows (h : s.Alike s')
    (hvalid : m.type = MsgType.request → validateClientIdAndRequestedParams
        (Env.seen { env with memory := memory } s'.transCache) m =
      validateClientIdAndRequestedParams (env.seen s.transCache) m) :
    Follows (dispatch env s m) (dispatch { env with memory := memory } s' m) := by
  unfold dispatch
  split
  · exact discoverHandle_follows h
  split
  · rename_i ht
    exact requestHandle_follows h (hvalid ht)
  split
  · exact declineHandle_follows h
  split
  · exact informHandle_follows h
  split
  · exact releaseHandle_follows h
  · exact .ok h _

end Memory

end Handlers

end DHCPServer
