import DHCPServer.Server.Runs

namespace DHCPServer

/-- The REQUEST `m` gets past the checks that come before an acknowledgement of the address `a`: it
accepts an offer and its lease is committed, or it asks for a renewal. -/
def Granted (env : Env) (s : Server) (m : Message) (a : UInt32) : Prop :=
  (∃ o50 lease, m.option Tag.requestedIpAddress = some o50 ∧ o50.ip = a ∧ Commits env s m a lease) ∨
    (m.option Tag.serverIdentifier = none ∧ m.ciaddr ≠ 0 ∧ m.ciaddr = a)

/-- The replies to an accepted message, before they are put into a packet, with the way their
options are collected. An OFFER is built when the address has been taken from its pool. -/
inductive Answers (env : Env) (s : Server) (m : Message) : Message → Prop
  | offer {al : AddressAllocator} {a siaddr : UInt32} {options : List DhcpOption} :
      m.type = MsgType.discover → al.shape = s.allocator.shape →
      offerOptions al m a = .ok (some options) →
      Answers env s m ((replyTo m 0 a siaddr m.giaddr MsgType.offer).setOptions options)
  | ack {ciaddr a siaddr giaddr : UInt32} {options : List DhcpOption} :
      m.type = MsgType.request → Granted env s m a →
      getRequestedDhcpOptions [51, 54, 0] [50, 55, 61, 57, 0] 5 s.allocator m a =
        .ok (some options) →
      Answers env s m ((replyTo m ciaddr a siaddr giaddr 0).setOptions options)
  | inform {siaddr : UInt32} {options : List DhcpOption} : m.type = MsgType.inform →
      getRequestedDhcpOptions [54, 0] [50, 51, 55, 61, 57, 0] 5 s.allocator m m.ciaddr =
        .ok (some options) →
      Answers env s m ((replyTo m m.ciaddr 0 siaddr m.giaddr MsgType.ack).setOptions options)
  | nak {options : List DhcpOption} : m.type = MsgType.request →
      dhcpOptionBuildRequiredOptions [0] s.allocator.defaultOptions s.allocator.defaultOptions []
        [0] [54, 0] 6 = some options →
      Answers env s m ((replyTo m 0 0 0 m.giaddr MsgType.nak).setOptions options)

/-- On the way from `s` to `s'` nothing is sent, or one packet that is built from a reply
satisfying `P` is sent and then cached, unless it would need a slot of its own and there is none. -/
def Sends (env : Env) (s s' : Server) (P : Message → Prop) : Prop :=
  (s'.sent = s.sent ∧ s'.transCache = s.transCache) ∨
    ∃ reply destination, P reply ∧ (dhcpPacketBuild reply).1 = true ∧ env.sends = true ∧
      s'.sent = s.sent ++ [⟨destination, (dhcpPacketBuild reply).2⟩] ∧
      ((s'.transCache = s.transCache ∧ ∀ t ∈ s.transCache, t.xid ≠ reply.xid) ∨
        s.transCache.Adds s'.transCache ((dhcpPacketBuild reply).2.setTime env.now))

section Sends

variable {env : Env} {s s' : Server} {m : Message} {P : Message → Prop}

theorem Answers.xid {reply : Message} (h : Answers env s m reply) : reply.xid = m.xid := by
  cases h with
  | offer | ack | inform | nak => rfl

theorem sends_refl (env : Env) (s : Server) (P : Message → Prop) : Sends env s s P :=
  .inl ⟨rfl, rfl⟩

theorem deliver_sends (env : Env) (hs : s.transCache.Sound) {reply : Message}
    (destination : UInt32) (hP : P reply) :
    Sends env s (deliver env s reply destination).2 P := by
  unfold deliver
  cases hb : (dhcpPacketBuild reply).1 with
  | false =>
    simp only [hb, Bool.not_false, if_true]
    exact sends_refl _ _ _
  | true =>
    simp only [hb, Bool.not_true, Bool.false_eq_true, if_false]
    split
    · exact sends_refl _ _ _
    · rename_i hsends
      refine .inr ⟨reply, destination, hP, hb, by simpa using hsends, rfl, ?_⟩
      rcases TransactionCache.add_cases env.now hs (dhcpPacketBuild reply).2 with
        ⟨hno, hfull⟩ | ⟨c, hc, hadds⟩
      · obtain ⟨p, hp⟩ := dhcpPacketBuild_message reply
        rw [hp] at hfull
        exact .inl ⟨congrArg Prod.snd hno, fun t ht => (hfull t ht).1⟩
      · refine .inr ?_
        have hcache : (transCacheAddMessage env.now s.transCache (dhcpPacketBuild reply).2).2 = c :=
          congrArg Prod.snd hc
        rw [← hcache] at hadds
        exact hadds

theorem nakBuild_sends (env : Env) (hs : s.transCache.Sound) (ht : m.type = MsgType.request) :
    Sends env s (messageDhcpnakBuild env s m).2 (Answers env s m) := by
  unfold messageDhcpnakBuild
  dsimp only
  split
  · exact sends_refl _ _ _
  · rename_i options ho
    exact deliver_sends env hs _ (.nak ht ho)

theorem sendAck_sends (hs : s.transCache.Sound) {ok : Bool} {ack : Message}
    {collected : Except Fault (Option (List DhcpOption))}
    (h : sendAck env s ack collected = .ok (ok, s'))
    (hP : ∀ options, collected = .ok (some options) → P (ack.setOptions options)) :
    Sends env s s' P := by
  obtain ⟨options, hopts, h⟩ := seq_ok.mp h
  cases options with
  | none =>
    cases h
    exact sends_refl _ _ _
  | some options =>
    have hd := deliver_sends env hs (ackDestination s ack.ciaddr) (hP options hopts)
    have hs' : _ = s' := congrArg Prod.snd (Except.ok.inj h)
    rw [← hs']
    exact hd

theorem offerBuild_sends (hs : s.transCache.Sound) {ok : Bool} {a d : UInt32}
    (h : messageDhcpofferBuild env s m a d = .ok (ok, s'))
    (hP : ∀ options, offerOptions s.allocator m a = .ok (some options) →
      P ((replyTo m 0 a s.boundIp m.giaddr MsgType.offer).setOptions options)) :
    Sends env s s' P := by
  obtain ⟨options, hopts, h⟩ := seq_ok.mp h
  cases options with
  | none =>
    cases h
    exact sends_refl _ _ _
  | some options =>
    have hd := deliver_sends env hs s.broadcastAddr (hP options hopts)
    have hs' : _ = s' := congrArg Prod.snd (Except.ok.inj h)
    rw [← hs']
    exact hd

theorem ackInform_sends (hs : s.transCache.Sound) (ht : m.type = MsgType.inform) {ok : Bool}
    (h : messageDhcpackBuildInformResponse env s m = .ok (ok, s')) :
    Sends env s s' (Answers env s m) := by
  unfold messageDhcpackBuildInformResponse at h
  split at h
  · cases h
    exact sends_refl _ _ _
  · exact sendAck_sends hs h fun _ hopts => .inform ht hopts

theorem request_sends (hs : s.transCache.Sound) (ht : m.type = MsgType.request) {rv : Int}
    (h : messageDhcprequestHandle env s m = .ok (rv, s')) :
    Sends env s s' (Answers env s m) := by
  unfold messageDhcprequestHandle at h
  cases h54 : m.option Tag.serverIdentifier with
  | some o54 =>
    simp only [h54] at h
    obtain ⟨⟨status, s₁⟩, hresp, h⟩ := seq_ok.mp h
    rcases response_cases h54 hresp with ⟨hst, rfl⟩ | ⟨rfl, lease, hcommits, rfl⟩
    · cases status with
      | ok => exact absurd rfl hst
      | differentServerIdentificator =>
        cases h
        exact sends_refl _ _ _
      | commitError | invalid | error =>
        have hs' : (messageDhcpnakBuild env s₁ m).2 = s' := congrArg Prod.snd (Except.ok.inj h)
        rw [← hs']
        exact nakBuild_sends env hs ht
    · obtain ⟨o50, h50, h⟩ := seq_ok.mp h
      obtain ⟨⟨ok, s₂⟩, hb, h⟩ := seq_ok.mp h
      cases h
      have h50' := deref_eq_ok.mp h50
      have hip : retrieveClientAddress m s.transCache = o50.ip := by
        simp [retrieveClientAddress, h50']
      rw [hip] at hcommits
      have hsends : Sends env (s.setLeases (leaseAdd true s.leases lease).2) s₂ (Answers env s m) :=
        sendAck_sends hs hb fun _ hopts => .ack ht (.inl ⟨o50, lease, h50', rfl, hcommits⟩) hopts
      exact hsends
  | none =>
    simp only [h54] at h
    split at h
    · cases h
      exact sends_refl _ _ _
    · rename_i hciaddr
      obtain ⟨⟨ok₁, s₁⟩, hren, h⟩ := seq_ok.mp h
      obtain ⟨⟨ok, s₂⟩, hb, h⟩ := seq_ok.mp h
      cases h
      have hgranted : Granted env s m m.ciaddr := .inr ⟨h54, hciaddr, rfl⟩
      rcases renew_cases hren with ⟨rfl, -, -⟩ | ⟨p, r, t, -, -, -, rfl⟩
      · exact sendAck_sends hs hb fun _ hopts => .ack ht hgranted hopts
      · have hsends : Sends env (s.setLeases (renewedLeases env s p r t)) s₂ (Answers env s m) :=
          sendAck_sends hs hb fun _ hopts => .ack ht hgranted hopts
        exact hsends

/-- Whatever is sent while an accepted message is handled is one of its answers. -/
theorem dispatch_sends (hs : s.transCache.Sound) {rv : Int}
    (h : dispatch env s m = .ok (rv, s')) :
    Sends env s s' (Answers env s m) := by
  unfold dispatch at h
  split at h
  · rename_i ht
    unfold messageDhcpdiscoverHandle at h
    rcases obtainAddress_cases s.allocator m with ⟨heq, -⟩ | ⟨x, a, pre, p, post, heq, hne, hg⟩
    · simp only [heq, if_true] at h
      cases h
      exact sends_refl _ _ _
    · simp only [heq, hne, if_false] at h
      split at h
      · cases h
        exact sends_refl _ _ _
      · obtain ⟨⟨ok, s₁⟩, hb, h⟩ := seq_ok.mp h
        cases h
        have hsends : Sends env (s.setAllocator a) s₁ (Answers env s m) :=
          offerBuild_sends hs hb fun _ hopts => .offer ht hg.shape hopts
        exact hsends
  split at h
  · exact request_sends hs ‹_› h
  split at h
  · have hs' : (messageDhcpdeclineHandle s m).2 = s' := congrArg Prod.snd (Except.ok.inj h)
    rw [← hs']
    rcases decline_handle_cases s m with heq | ⟨ack, -, -, heq⟩
    · rw [heq]
      exact sends_refl _ _ _
    · rw [heq]
      exact .inl ⟨rfl, rfl⟩
  split at h
  · obtain ⟨⟨ok, s₁⟩, hb, h⟩ := seq_ok.mp h
    cases h
    exact ackInform_sends hs ‹_› hb
  split at h
  · have hs' : (messageDhcpreleaseHandle env s m).2 = s' := congrArg Prod.snd (Except.ok.inj h)
    rw [← hs']
    rcases release_handle_cases env s m with ⟨heq, -⟩ | ⟨p, r, -, -, heq⟩
    · rw [heq]
      exact sends_refl _ _ _
    · rw [heq]
      exact .inl ⟨rfl, rfl⟩
  · cases h
    exact sends_refl _ _ _

end Sends

end DHCPServer
