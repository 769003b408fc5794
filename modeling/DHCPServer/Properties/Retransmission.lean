import DHCPServer.Server.LeaseWrites
import DHCPServer.Server.Startup

namespace DHCPServer

/-- The REQUEST `m` answers an OFFER of this server, follows the cached DISCOVER `d` and passes all
checks but the comparison with it: its address `o50` is taken, lies in the pool `p`, and has a
lease time. -/
structure Committable (s : Server) (m d : Message) (o54 o50 : DhcpOption) (p : AddressPool) :
    Prop where
  identifier : m.option Tag.serverIdentifier = some o54
  server : o54.ip = s.boundIp
  ciaddr : m.ciaddr = 0
  yiaddr : m.yiaddr = 0
  requested : m.option Tag.requestedIpAddress = some o50
  parameters : (m.option Tag.parameterRequestList).isSome
  discover : transCacheRetrieveMessage s.transCache m.xid MsgType.discover = some d
  taken : allocatorIsAddressAvailable s.allocator o50.ip = false
  pool : allocatorGetPoolByAddress s.allocator o50.ip = some p
  leaseTime : configuredLeaseTime s.allocator p ≠ 0

/-- There is one lease record for the address and no other, the allocator has not changed, and a
RELEASE of the address for which the file can be rewritten leaves no record of it. -/
structure LeasedOnce (s s' : Server) (x : UInt32) : Prop where
  allocator : s'.allocator = s.allocator
  single : ∃ n, recordsAt x (s'.leases n) = 1 ∧ ∀ n', n' ≠ n → recordsAt x (s'.leases n') = 0
  released : ∀ (env : Env) (release : Message), env.rewrite = .done → release.ciaddr = x →
    ∀ n, recordsAt x ((messageDhcpreleaseHandle env s' release).2.leases n) = 0

/-- The lease such a REQUEST gets. -/
def committedLease (env : Env) (s : Server) (m : Message) (o50 : DhcpOption) (p : AddressPool) :
    Lease :=
  newLease env.now m p (configuredLeaseTime s.allocator p) o50.ip

/-- The REQUEST is committed: it does not differ from its DISCOVER, as that is read, and the file can
be written. -/
def isCommitted (env : Env) (cache : TransactionCache) (m : Message) : Bool :=
  validateClientIdAndRequestedParams (env.seen cache) m && env.writes

section Commits

variable {env : Env} {s s' : Server} {m d : Message} {o54 o50 : DhcpOption} {p : AddressPool}

theorem build_xid (reply : Message) : (dhcpPacketBuild reply).2.xid = reply.xid := by
  obtain ⟨p, hp⟩ := dhcpPacketBuild_message reply
  rw [hp, setPacket_xid]

/-- A reply of the transaction leaves the messages of the transaction that are found. -/
theorem DeliversSome.retrieveMessage {type : UInt32}
    (h : DeliversSome env s s' fun reply => reply.xid = m.xid)
    (hd : transCacheRetrieveMessage s.transCache m.xid type = some d) :
    transCacheRetrieveMessage s'.transCache m.xid type = some d := by
  rcases h with rfl | ⟨reply, hxid, h⟩
  · exact hd
  · rcases h.transCache with heq | heq
    · rw [heq]
      exact hd
    · rw [heq]
      rw [← hxid, ← build_xid] at hd ⊢
      exact TransactionCache.retrieveMessage_add env.now hd

/-- What the comparison says depends on the cache through the DISCOVER only. -/
theorem isCommitted_congr {cache cache' : TransactionCache} (env : Env)
    (h : transCacheRetrieveMessage cache m.xid MsgType.discover =
      transCacheRetrieveMessage cache' m.xid MsgType.discover) :
    isCommitted env cache m = isCommitted env cache' m := by
  unfold isCommitted validateClientIdAndRequestedParams
  rw [seen_retrieve, seen_retrieve, h]

/-- After a reply to it the REQUEST passes the same checks again. -/
theorem Committable.again (h : Committable s m d o54 o50 p) {l : LeaseStore}
    (hr : DeliversSome env (s.setLeases l) s' fun reply => reply.xid = m.xid) :
    Committable s' m d o54 o50 p := by
  have hallocator : s'.allocator = s.allocator := hr.allocator
  have hbound : s'.boundIp = s.boundIp := hr.boundIp
  refine ⟨h.identifier, ?_, h.ciaddr, h.yiaddr, h.requested, h.parameters,
    hr.retrieveMessage h.discover, ?_, ?_, ?_⟩
  · rw [hbound]
    exact h.server
  · rw [hallocator]
    exact h.taken
  · rw [hallocator]
    exact h.pool
  · rw [hallocator]
    exact h.leaseTime

/-- With a parameter list the ACK builder returns, whether it sends an ACK or not. -/
theorem ackBuild_returns (env : Env) (s : Server) (d x : UInt32)
    (h55 : (m.option Tag.parameterRequestList).isSome) :
    ∃ ok s', messageDhcpackBuild env s m d x = .ok (ok, s') := by
  obtain ⟨o55, h55⟩ := Option.isSome_iff_exists.mp h55
  have hoptions : ∃ options, getRequestedDhcpOptions [51, 54, 0] [50, 55, 61, 57, 0] 5 s.allocator m
      x = .ok options := by
    unfold getRequestedDhcpOptions
    rw [h55]
    cases hp : allocatorGetPoolByAddress s.allocator x with
    | none => exact ⟨none, seq_ok.mpr ⟨o55, rfl, rfl⟩⟩
    | some pool => exact ⟨_, seq_ok.mpr ⟨o55, rfl, rfl⟩⟩
  obtain ⟨options, hoptions⟩ := hoptions
  unfold messageDhcpackBuild sendAck
  rw [hoptions]
  cases options with
  | none => exact ⟨false, s, rfl⟩
  | some options => exact ⟨_, _, rfl⟩

/-- The step lemma: such a REQUEST is answered, a lease is added to the pool's file if it passes the
comparison too and the file can be written, and it passes the checks of the next time as well. -/
theorem Committable.handle (h : Committable s m d o54 o50 p) (env : Env) :
    ∃ rv s', messageDhcprequestHandle env s m = .ok (rv, s') ∧ s'.allocator = s.allocator ∧
      s'.leases = (leaseAdd (isCommitted env s.transCache m) s.leases
        (committedLease env s m o50 p)).2 ∧
      Committable s' m d o54 o50 p := by
  -- a REQUEST that is not committed is answered with a NAK
  have hnak : ∀ l, dhcpRequestResponseToOffer env s m o54 = .ok (.invalid, s.setLeases l) →
      ∃ rv s', messageDhcprequestHandle env s m = .ok (rv, s') ∧ s'.allocator = s.allocator ∧
        s'.leases = l ∧ Committable s' m d o54 o50 p := by
    intro l hresponse
    have hdelivers := nakBuild_delivers env (s.setLeases l) m
      (P := fun reply => reply.xid = m.xid) fun _ _ => rfl
    unfold messageDhcprequestHandle
    rw [h.identifier]
    exact ⟨_, _, seq_ok.mpr ⟨_, hresponse, rfl⟩, hdelivers.allocator, hdelivers.leases,
      h.again hdelivers⟩
  cases hvalid : validateClientIdAndRequestedParams (env.seen s.transCache) m with
  | false =>
    rw [isCommitted, hvalid, Bool.false_and]
    exact hnak _ (response_differs h.server h.ciaddr h.yiaddr hvalid)
  | true =>
    rw [isCommitted, hvalid, Bool.true_and]
    have haddress : retrieveClientAddress m s.transCache = o50.ip := by
      rw [retrieveClientAddress, h.requested]
    have hresponse := @response_commits env s m p o54 h.server h.ciaddr h.yiaddr hvalid
      (haddress ▸ h.taken) (haddress ▸ h.pool) h.leaseTime
    rw [haddress] at hresponse
    cases hw : env.writes with
    | false =>
      rw [hw] at hresponse
      exact hnak _ hresponse
    | true =>
      obtain ⟨ok, s', hack⟩ := ackBuild_returns env
        (s.setLeases (leaseAdd true s.leases (committedLease env s m o50 p)).2) o54.number o50.ip
        h.parameters
      have hdelivers : DeliversSome env _ s' fun reply => reply.xid = m.xid :=
        sendAck_delivers hack fun _ _ => rfl
      unfold messageDhcprequestHandle
      rw [hw] at hresponse
      rw [h.identifier]
      refine ⟨_, s', seq_ok.mpr ⟨_, hresponse, seq_ok.mpr ⟨o50, deref_eq_ok.mpr h.requested,
        seq_ok.mpr ⟨_, hack, rfl⟩⟩⟩, hdelivers.allocator, hdelivers.leases, h.again hdelivers⟩

theorem validate_discover {cache : TransactionCache}
    (h : validateClientIdAndRequestedParams cache m = true) :
    ∃ d, transCacheRetrieveMessage cache m.xid MsgType.discover = some d := by
  unfold validateClientIdAndRequestedParams at h
  cases hd : transCacheRetrieveMessage cache m.xid MsgType.discover with
  | none =>
    rw [hd] at h
    cases h
  | some d => exact ⟨d, rfl⟩

/-- A REQUEST in answer to an OFFER that is acknowledged has passed the checks, and the file could
be written. -/
theorem committable_of_acked {rv : Int} {k : Sent} (h54 : m.option Tag.serverIdentifier = some o54)
    (hh : messageDhcprequestHandle env s m = .ok (rv, s')) (hk : answer s s' = some k)
    (hack : k.message.wireType = some MsgType.ack) :
    ∃ d o50 p, Committable s m d o54 o50 p ∧ isCommitted env s.transCache m = true := by
  unfold messageDhcprequestHandle at hh
  rw [h54] at hh
  obtain ⟨⟨status, s₁⟩, hresponse, hh⟩ := seq_ok.mp hh
  have hnak : answer s (messageDhcpnakBuild env s m).2 ≠ some k := by
    intro hk
    have hdelivers := nakBuild_delivers env s m (P := fun reply => reply.wireType = some 6)
      fun options ho => wireType_of_build ho rfl
    obtain ⟨reply, htype, hmessage, -⟩ := hdelivers.answer hk
    obtain ⟨p, hp⟩ := dhcpPacketBuild_message reply
    have hwire : k.message.wireType = some 6 := by
      rw [hmessage, hp]
      exact htype
    rw [hwire] at hack
    cases hack
  rcases response_cases h54 hresponse with ⟨hne, rfl⟩ | ⟨rfl, -⟩
  · -- without a commit there is a NAK or no answer at all
    cases status with
    | commitError | invalid | error =>
      cases hh
      exact absurd hk hnak
    | differentServerIdentificator =>
      cases hh
      rw [answer_self] at hk
      cases hk
    | ok => exact absurd rfl hne
  · obtain ⟨o50, h50, hh⟩ := seq_ok.mp hh
    rw [deref_eq_ok] at h50
    obtain ⟨⟨ok, s₂⟩, hsend, hh⟩ := seq_ok.mp hh
    obtain ⟨options, hoptions, -⟩ := seq_ok.mp hsend
    obtain ⟨o55, h55, -⟩ := getRequested_ok hoptions
    obtain ⟨hip, hci, hyi, hvalid, hav, hw, p, hp, ht, rfl⟩ := response_ok hresponse
    have haddress : retrieveClientAddress m s.transCache = o50.ip := by
      rw [retrieveClientAddress, h50]
    rw [haddress] at hav hp
    obtain ⟨d, hd⟩ := validate_discover hvalid
    rw [seen_retrieve, Option.map_eq_some_iff] at hd
    obtain ⟨d, hd, -⟩ := hd
    exact ⟨d, o50, p, ⟨h54, hip, hci, hyi, h50, Option.isSome_of_eq_some h55, hd, hav, hp, ht⟩,
      by rw [isCommitted, hvalid, hw]; rfl⟩

end Commits

section Records

variable {s : Server} {p : AddressPool} {x : UInt32} {n : CString}

theorem recordsAt_leaseAdd (written : Bool) (store : LeaseStore) (lease : Lease) (n : CString) :
    recordsAt lease.record.address ((leaseAdd written store lease).2 n) =
      recordsAt lease.record.address (store n) +
        if written = true ∧ n = lease.poolName then 1 else 0 := by
  cases written with
  | false => simp [leaseAdd]
  | true =>
    by_cases hn : n = lease.poolName
    · simp [leaseAdd, hn, recordsAt, List.countP_append]
    · simp [leaseAdd, hn, LeaseStore.set_other hn]

/-- A RELEASE takes away the only record of an address. -/
theorem release_only_record (hp : allocatorGetPoolByAddress s.allocator x = some p)
    (hone : recordsAt x (s.leases p.name) = 1)
    (hzero : ∀ n, n ≠ p.name → recordsAt x (s.leases n) = 0) {env : Env} {release : Message}
    (hdone : env.rewrite = .done) (hx : release.ciaddr = x) (n : CString) :
    recordsAt x ((messageDhcpreleaseHandle env s release).2.leases n) = 0 := by
  subst hx
  rcases release_handle_cases env s release with ⟨-, hopen | hnone⟩ | ⟨q, r, hr, -, heq⟩
  · rw [hdone] at hopen
    cases hopen
  · obtain ⟨r, hr, haddr⟩ := recordsAt_pos.mp (by rw [hone]; exact Nat.one_pos)
    have hsome : ((s.leases p.name).find? (·.address == release.ciaddr)).isSome := by
      rw [List.find?_isSome]
      exact ⟨r, hr, by simpa using haddr⟩
    obtain ⟨r', hr'⟩ := Option.isSome_iff_exists.mp hsome
    exact absurd ⟨p, r', hp, hr'⟩ hnone
  · obtain rfl : q = p := Option.some.inj (hr.pool.symm.trans hp)
    rw [heq, hdone]
    show recordsAt release.ciaddr ((leaseRemove .done s.leases release.ciaddr q.name).2 n) = 0
    by_cases hn : n = q.name
    · rw [hn, leaseRemove_same, recordsAt_eraseP, hone, if_pos rfl]
    · rw [leaseRemove_other _ hn]
      exact hzero n hn

end Records

/-- Counts that grow by one at one name, and there once more if `again`, become a single one exactly
when they were all zero and grow only once. -/
theorem single_iff {f g : CString → Nat} {again : Bool} {name : CString}
    (hg : ∀ n, g n = f n + (if n = name then 1 else 0) +
      if again = true ∧ n = name then 1 else 0) :
    (∃ n, g n = 1 ∧ ∀ n', n' ≠ n → g n' = 0) ↔ again = false ∧ ∀ n, f n = 0 := by
  constructor
  · intro h
    obtain ⟨n, hone, hzero⟩ := h
    have hname : n = name := by
      by_contra hn
      have hp := hzero name (Ne.symm hn)
      rw [hg, if_pos rfl] at hp
      omega
    subst hname
    rw [hg, if_pos rfl] at hone
    refine ⟨?_, fun n' => ?_⟩
    · by_contra hagain
      rw [Bool.not_eq_false] at hagain
      rw [if_pos ⟨hagain, rfl⟩] at hone
      omega
    · by_cases hn : n' = n
      · rw [hn]
        omega
      · have hother := hzero n' hn
        rw [hg] at hother
        omega
  · intro h
    obtain ⟨hagain, hnone⟩ := h
    refine ⟨name, ?_, fun n hn => ?_⟩
    · rw [hg, hnone, if_pos rfl, hagain]
      rfl
    · rw [hg, hnone, if_neg hn, if_neg fun h => hn h.2]

/-- A REQUEST that has been acknowledged is answered again when it is handled again, and its lease
stays a single one exactly when the second time nothing can be written or the comparison with the
DISCOVER, whose options may have been overwritten, fails, and there was no record of the address
before the first. -/
theorem retransmission_iff {env : Env} {s s₁ : Server} {m : Message} {o54 : DhcpOption} {rv : Int}
    {k : Sent} (h54 : m.option Tag.serverIdentifier = some o54)
    (hh : messageDhcprequestHandle env s m = .ok (rv, s₁)) (hk : answer s s₁ = some k)
    (hack : k.message.wireType = some MsgType.ack) (env₂ : Env) :
    ∃ o50 rv₂ s₂, m.option Tag.requestedIpAddress = some o50 ∧
      messageDhcprequestHandle env₂ s₁ m = .ok (rv₂, s₂) ∧
      (LeasedOnce s₁ s₂ o50.ip ↔
        (validateClientIdAndRequestedParams (env₂.seen s.transCache) m = false ∨
          env₂.writes = false) ∧ ∀ n, recordsAt o50.ip (s.leases n) = 0) := by
  obtain ⟨d, o50, p, hcommit, hpass⟩ := committable_of_acked h54 hh hk hack
  obtain ⟨rv', s₁', hfirst, hallocator, hleases, hcommit₁⟩ := hcommit.handle env
  rw [hh] at hfirst
  cases hfirst
  obtain ⟨rv₂, s₂, hsecond, hallocator₂, hleases₂, hcommit₂⟩ := hcommit₁.handle env₂
  refine ⟨o50, rv₂, s₂, hcommit.requested, hsecond, ?_⟩
  rw [← Bool.and_eq_false_iff]
  show _ ↔ isCommitted env₂ s.transCache m = false ∧ _
  have hsame : isCommitted env₂ s₁.transCache m = isCommitted env₂ s.transCache m :=
    isCommitted_congr env₂ (hcommit₁.discover.trans hcommit.discover.symm)
  have hcount : ∀ n, recordsAt o50.ip (s₂.leases n) = recordsAt o50.ip (s.leases n) +
      (if n = p.name then 1 else 0) +
        if isCommitted env₂ s.transCache m = true ∧ n = p.name then 1 else 0 := by
    intro n
    have hadd := recordsAt_leaseAdd (isCommitted env s.transCache m) s.leases
      (committedLease env s m o50 p) n
    have hadd₂ := recordsAt_leaseAdd (isCommitted env₂ s₁.transCache m) s₁.leases
      (committedLease env₂ s₁ m o50 p) n
    rw [← hleases, hpass] at hadd
    rw [← hleases₂, hsame] at hadd₂
    simp only [true_and] at hadd
    exact hadd₂.trans (congrArg (· + _) hadd)
  constructor
  · intro h
    exact (single_iff hcount).mp h.single
  · intro h
    obtain ⟨n, hone, hzero⟩ := (single_iff hcount).mpr h
    have hname : n = p.name := by
      by_contra hn
      have hp := hzero p.name (Ne.symm hn)
      rw [hcount, if_pos rfl] at hp
      omega
    subst hname
    exact ⟨hallocator₂, ⟨p.name, hone, hzero⟩, fun env₃ release hdone hx n =>
      release_only_record hcommit₂.pool hone hzero hdone hx n⟩

/-- The message that `handled` yields for an event in the small network. -/
def acceptedMessage (e : Event) : Message :=
  ((handled smallServer e).map Prod.fst).getD dhcpMessageNew

/-- The small network's server when it has offered 10.0.0.1 to the client 1. -/
def offeringServer : Server :=
  let discover := acceptedMessage (discoverBy 1001 7 1)
  (smallServer.setAllocator (obtainAddress smallServer.allocator discover).2).setTransCache
    (transCacheAddMessage 1001 smallServer.transCache discover).2

theorem offeringServer_leases (n : CString) : offeringServer.leases n = [] := by
  rw [List.eq_nil_iff_forall_not_mem]
  intro r hr
  have hsame : offeringServer.leases = smallServer.leases := by
    unfold offeringServer
    rw [Server.setTransCache_leases, Server.setAllocator_leases]
  rw [hsame, smallServer] at hr
  cases startup_subset hr

/-- The client's REQUEST for that address. -/
def acceptedRequest : Message := acceptedMessage (requestBy 1002 7 1 1)

/-- The second time the file cannot be written, and the lease of the first time stays alone. -/
theorem retransmission_unwritten : ∃ o50 rv s₁ rv₂ s₂,
    acceptedRequest.option Tag.requestedIpAddress = some o50 ∧
    messageDhcprequestHandle (.fair 1002) offeringServer acceptedRequest = .ok (rv, s₁) ∧
    messageDhcprequestHandle { Env.fair 1003 with writes := false } s₁ acceptedRequest =
      .ok (rv₂, s₂) ∧
    LeasedOnce s₁ s₂ o50.ip := by
  have hany : (acceptedRequest.option Tag.serverIdentifier).any (fun _ =>
      (messageDhcprequestHandle (.fair 1002) offeringServer acceptedRequest).toOption.any
        fun x => (answer offeringServer x.2).any fun k =>
          k.message.wireType == some MsgType.ack) = true := by decide +kernel
  obtain ⟨o54, h54, hrun⟩ := (Option.any_eq_true _ _).mp hany
  obtain ⟨⟨rv, s₁⟩, hfirst, hanswer⟩ := exists_ok_of_any hrun
  obtain ⟨k, hk, hack⟩ := (Option.any_eq_true _ _).mp hanswer
  obtain ⟨o50, rv₂, s₂, h50, hsecond, hiff⟩ :=
    retransmission_iff h54 hfirst hk (beq_iff_eq.mp hack) { Env.fair 1003 with writes := false }
  refine ⟨o50, rv, s₁, rv₂, s₂, h50, hfirst, hsecond, hiff.mpr ⟨.inr rfl, fun n => ?_⟩⟩
  rw [offeringServer_leases]
  rfl

/-- When the file can be written, the second REQUEST leaves a second record of 10.0.0.1. -/
theorem retransmission_leases_twice :
    ¬∀ env env₂ s m o54 rv s₁ k, m.option Tag.serverIdentifier = some o54 → o54.ip = s.boundIp →
      messageDhcprequestHandle env s m = .ok (rv, s₁) → answer s s₁ = some k →
      k.message.wireType = some MsgType.ack →
      ∃ o50 rv₂ s₂, m.option Tag.requestedIpAddress = some o50 ∧
        messageDhcprequestHandle env₂ s₁ m = .ok (rv₂, s₂) ∧ LeasedOnce s₁ s₂ o50.ip := by
  intro h
  have hany : (acceptedRequest.option Tag.serverIdentifier).any (fun o54 =>
      o54.ip == offeringServer.boundIp &&
      (acceptedRequest.option Tag.requestedIpAddress).any (·.ip == 0x0a000001) &&
      (messageDhcprequestHandle (.fair 1002) offeringServer acceptedRequest).toOption.any
        fun x => ((answer offeringServer x.2).any fun k =>
          k.message.wireType == some MsgType.ack) &&
          (messageDhcprequestHandle (.fair 1003) x.2 acceptedRequest).toOption.any fun y =>
            recordsAt 0x0a000001 (y.2.leases ['a']) == 2) = true := by decide +kernel
  obtain ⟨o54, h54, hq⟩ := (Option.any_eq_true _ _).mp hany
  simp only [Bool.and_eq_true, beq_iff_eq] at hq
  obtain ⟨⟨hip, h50⟩, hrun⟩ := hq
  obtain ⟨⟨rv, s₁⟩, hs₁, hq⟩ := exists_ok_of_any hrun
  rw [Bool.and_eq_true] at hq
  obtain ⟨hanswer, hagain⟩ := hq
  obtain ⟨k, hk, hack⟩ := (Option.any_eq_true _ _).mp hanswer
  obtain ⟨⟨rv₂, s₂⟩, hs₂, htwo⟩ := exists_ok_of_any hagain
  obtain ⟨o50, ho50, hip50⟩ := (Option.any_eq_true _ _).mp h50
  obtain ⟨o50', rv₂', s₂', ho50', hsecond, honce⟩ := h (.fair 1002) (.fair 1003)
    offeringServer acceptedRequest o54 rv s₁ k h54 hip hs₁ hk
    (beq_iff_eq.mp hack)
  obtain rfl : o50 = o50' := Option.some.inj (ho50.symm.trans ho50')
  rw [hs₂] at hsecond
  cases hsecond
  rw [beq_iff_eq] at hip50 htwo
  obtain ⟨n, hone, hzero⟩ := honce.single
  rw [hip50] at hone hzero
  by_cases hn : n = ['a']
  · rw [hn, htwo] at hone
    cases hone
  · have hnone := hzero ['a'] (Ne.symm hn)
    rw [htwo] at hnone
    cases hnone

end DHCPServer
