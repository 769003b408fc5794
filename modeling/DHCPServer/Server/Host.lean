import DHCPServer.Server.LeaseWrites
import DHCPServer.Server.Startup

namespace DHCPServer

/-- The REQUEST `m` answers an OFFER, and `r` is the record that is written for it into the file of
the pool `p`. -/
structure CommitsRecord (env : Env) (s : Server) (m : Message) (p : AddressPool)
    (r : LeaseRecord) : Prop where
  type : m.type = MsgType.request
  serverIdentifier : ∃ o54, m.option Tag.serverIdentifier = some o54 ∧ o54.ip = s.boundIp
  requested : ∃ o50, m.option Tag.requestedIpAddress = some o50 ∧ r.address = o50.ip
  valid : validateClientIdAndRequestedParams (env.seen s.transCache) m = true
  notAvailable : allocatorIsAddressAvailable s.allocator r.address = false
  pool : allocatorGetPoolByAddress s.allocator r.address = some p
  record : r = (newLease env.now m p (configuredLeaseTime s.allocator p) r.address).record
  written : env.writes = true

/-- The REQUEST `m` renews the record `r`, the first of its address in the file of the pool `p`. -/
structure RenewsRecord (s : Server) (m : Message) (p : AddressPool) (r : LeaseRecord) : Prop where
  type : m.type = MsgType.request
  noServerIdentifier : m.option Tag.serverIdentifier = none
  first : FirstRecord s m.ciaddr p r
  owner : r.clientMacAddress = m.mac

/-- What handling an accepted message can do to the lease files. -/
inductive LeaseStep (env : Env) (s : Server) (m : Message) : LeaseStore → Prop
  | same : LeaseStep env s m s.leases
  | commit {p : AddressPool} {r : LeaseRecord} : CommitsRecord env s m p r →
      LeaseStep env s m (leaseAdd true s.leases ⟨r, p.name⟩).2
  | renew {p : AddressPool} {r : LeaseRecord} : RenewsRecord s m p r →
      LeaseStep env s m (renewedLeases env s p r (configuredLeaseTime s.allocator p))
  | release {p : AddressPool} {r : LeaseRecord} : m.type = MsgType.release →
      FirstRecord s m.ciaddr p r →
      LeaseStep env s m (leaseRemove env.rewrite s.leases m.ciaddr p.name).2

section Steps

variable {env : Env} {s s' : Server} {m : Message}

/-- What the answer to an OFFER has written. -/
theorem response_leases (ht : m.type = MsgType.request) {o54 o50 : DhcpOption}
    (h54 : m.option Tag.serverIdentifier = some o54)
    (h50 : m.option Tag.requestedIpAddress = some o50)
    (h : dhcpRequestResponseToOffer env s m o54 = .ok (.ok, s')) :
    LeaseStep env s m s'.leases := by
  obtain ⟨hip, -, -, hvalid, hav, hw, p, hp, -, rfl⟩ := response_ok h
  have haddr : retrieveClientAddress m s.transCache = o50.ip := by
    simp [retrieveClientAddress, h50]
  rw [haddr] at hav hp ⊢
  exact .commit ⟨ht, ⟨o54, h54, hip⟩, ⟨o50, h50, rfl⟩, hvalid, hav, hp, rfl, hw⟩

theorem request_leases (hs : s.transCache.Sound) (ht : m.type = MsgType.request) {rv : Int}
    (h : messageDhcprequestHandle env s m = .ok (rv, s')) : LeaseStep env s m s'.leases := by
  unfold messageDhcprequestHandle at h
  cases h54 : m.option Tag.serverIdentifier with
  | some o54 =>
    simp only [h54] at h
    obtain ⟨⟨status, s₁⟩, hresp, h⟩ := seq_ok.mp h
    rcases response_cases h54 hresp with ⟨hst, rfl⟩ | ⟨rfl, lease, -, hs₁⟩
    · cases status with
      | ok => exact absurd rfl hst
      | differentServerIdentificator =>
        cases h
        exact .same
      | commitError | invalid | error =>
        have hs' : (messageDhcpnakBuild env s₁ m).2 = s' := congrArg Prod.snd (Except.ok.inj h)
        rw [← hs', (nakBuild_replied env hs m).leases]
        exact .same
    · obtain ⟨o50, h50, h⟩ := seq_ok.mp h
      obtain ⟨⟨ok, s₂⟩, hb, h⟩ := seq_ok.mp h
      cases h
      have hs₂ : s₁.transCache.Sound := by
        rw [hs₁]
        exact hs
      rw [(ackBuild_replied hs₂ hb).leases]
      exact response_leases ht h54 (deref_eq_ok.mp h50) hresp
  | none =>
    simp only [h54] at h
    split at h
    · cases h
      exact .same
    · obtain ⟨⟨ok₁, s₁⟩, hren, h⟩ := seq_ok.mp h
      obtain ⟨⟨ok, s₂⟩, hb, h⟩ := seq_ok.mp h
      cases h
      by_cases hdue : Renewable s m
      · obtain ⟨p, r, hr, hmac⟩ := hdue
        rw [renew_eq hr hmac] at hren
        cases hren
        have hs₁ : (s.setLeases (renewedLeases env s p r
          (configuredLeaseTime s.allocator p))).transCache.Sound := hs
        rw [(ackRenew_replied hs₁ hb).leases]
        exact .renew ⟨ht, h54, hr, hmac⟩
      · rw [renew_none hdue] at hren
        cases hren
        rw [(ackRenew_replied hs hb).leases]
        exact .same

/-- Every outcome of the switch is one of the steps. -/
theorem dispatch_leases (hs : s.transCache.Sound) {rv : Int}
    (h : dispatch env s m = .ok (rv, s')) : LeaseStep env s m s'.leases := by
  by_cases ht : m.type = MsgType.request
  · have hne : m.type ≠ MsgType.discover := by
      rw [ht]
      decide
    rw [dispatch, if_neg hne, if_pos ht] at h
    exact request_leases hs ht h
  · cases dispatch_effect hs h with
    | ignored | declined _ _ _ => exact .same
    | offered _ _ _ hr | informed _ hr =>
      rw [hr.leases]
      exact .same
    | released ht' hr _ => exact .release ht' hr
    | refused ht' _ | committed ht' _ _ _ | renewed ht' _ _ _ _ | notRenewed ht' _ _ _ =>
      exact absurd ht' ht

/-- A pass keeps the pools and the options as they are. -/
theorem serve_shape {e : Event} (hs : s.transCache.Sound) (h : serve s e = .ok s') :
    s'.allocator.shape = s.allocator.shape := by
  have htick := updateTimers_shape e.env s
  rcases serve_cases hs h with ⟨-, hr, -⟩ | ⟨m, s₂, rv, hm, hd⟩
  · rw [hr.allocator, htick]
  · have hacc := handled_accepts hs hm
    have heff := dispatch_effect (hacc.adds.sound (update_cache_sound _ hs)) hd
    rw [heff.shape, hacc.allocator, htick]

end Steps

/-- A machine on which the server runs: the server with its files, and the clock as it has been read
last. -/
structure Host where
  server : Server
  clock : UInt32

/-- What happens on the machine: a pass of the server loop, or the server is stopped at any point
between two passes and started again. -/
inductive HostEvent where
  | pass (e : Event)
  | restart (now : UInt32)

/-- The reading of the clock that goes with an event. -/
def HostEvent.time : HostEvent → UInt32
  | .pass e => e.env.now
  | .restart now => now

namespace Host

/-- A start finds the configuration and the files, and nothing else of the server before. -/
def step (cfg : Config) (h : Host) : HostEvent → Except Fault Host
  | .pass e => do
    let s ← serve h.server e
    return ⟨s, e.env.now⟩
  | .restart now => return ⟨startup cfg h.server.leases now, now⟩

section Step

variable {cfg : Config} {h h' : Host}

/-- What an event does to the server: it starts it again, takes a pass in which no message is
handled, or one in which a message is handled, and then the files change as the message says. -/
theorem step_cases (hs : h.server.transCache.Sound) {e : HostEvent}
    (hstep : h.step cfg e = .ok h') :
    (∃ now, e = .restart now ∧ h' = ⟨startup cfg h.server.leases now, now⟩) ∨
    ∃ a, e = .pass a ∧ h'.clock = a.env.now ∧ serve h.server a = .ok h'.server ∧
      ((handled h.server a = none ∧
          h'.server.leases = (updateTimers a.env h.server).leases) ∨
        ∃ m s, handled h.server a = some (m, s) ∧
          Receives (updateTimers a.env h.server) s ∧ LeaseStep a.env s m h'.server.leases) := by
  cases e with
  | restart now =>
    cases hstep
    exact .inl ⟨now, rfl, rfl⟩
  | pass a =>
    obtain ⟨s, hserve, hstep⟩ := seq_ok.mp hstep
    cases hstep
    refine .inr ⟨a, rfl, rfl, hserve, ?_⟩
    rcases serve_cases hs hserve with ⟨hnone, hr, -⟩ | ⟨m, s₂, rv, hm, hd⟩
    · exact .inl ⟨hnone, hr.leases⟩
    · have hacc := handled_accepts hs hm
      exact .inr ⟨m, s₂, hm, hacc.toReceives,
        dispatch_leases (hacc.adds.sound (update_cache_sound _ hs)) hd⟩

theorem step_sound (hs : h.server.transCache.Sound) {e : HostEvent}
    (hstep : h.step cfg e = .ok h') : h'.server.transCache.Sound := by
  cases e with
  | restart now =>
    cases hstep
    exact startup_sound cfg _ now
  | pass a =>
    obtain ⟨s, hserve, hstep⟩ := seq_ok.mp hstep
    cases hstep
    rcases serve_cases hs hserve with ⟨-, -, hc⟩ | ⟨m, s₂, rv, hm, hd⟩
    · show s.transCache.Sound
      rw [hc]
      exact update_cache_sound _ hs
    · have hs₂ := (handled_accepts hs hm).adds.sound (update_cache_sound _ hs)
      exact (dispatch_effect hs₂ hd).sound hs₂

end Step

end Host

end DHCPServer
