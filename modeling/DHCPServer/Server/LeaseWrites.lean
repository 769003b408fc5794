import DHCPServer.Server.Delivery

namespace DHCPServer

/-- The REQUEST `m` makes the server write a lease: it commits one or extends one. -/
def WritesLease (env : Env) (s : Server) (m : Message) : Prop :=
  (∃ o54 s₁, m.option Tag.serverIdentifier = some o54 ∧
    dhcpRequestResponseToOffer env s m o54 = .ok (.ok, s₁)) ∨
  (m.option Tag.serverIdentifier = none ∧ ∃ s₁, dhcpRequestRenewLease env s m = .ok (true, s₁))

section LeaseTime

variable {env : Env} {s s' : Server} {m : Message} {a : AddressAllocator} {p : AddressPool}
  {x : UInt32} {r : LeaseRecord}

/-- What a REQUEST in answer to an OFFER has written when it succeeds. -/
theorem response_ok {o54 : DhcpOption}
    (h : dhcpRequestResponseToOffer env s m o54 = .ok (.ok, s')) :
    o54.ip = s.boundIp ∧ m.ciaddr = 0 ∧ m.yiaddr = 0 ∧
    validateClientIdAndRequestedParams (env.seen s.transCache) m = true ∧
    allocatorIsAddressAvailable s.allocator (retrieveClientAddress m s.transCache) = false ∧
    env.writes = true ∧
    ∃ p, allocatorGetPoolByAddress s.allocator (retrieveClientAddress m s.transCache) = some p ∧
      configuredLeaseTime s.allocator p ≠ 0 ∧
      s' = s.setLeases (leaseAdd true s.leases (newLease env.now m p
        (configuredLeaseTime s.allocator p) (retrieveClientAddress m s.transCache))).2 := by
  unfold dhcpRequestResponseToOffer at h
  split at h
  · cases h
  rename_i hip
  split at h
  · cases h
  rename_i haddr
  rw [not_or, not_not, not_not] at haddr
  split at h
  · cases h
  rename_i hvalid
  dsimp only at h
  split at h
  · cases h
  split at h
  · cases h
  rename_i hav
  obtain ⟨t, ht, h⟩ := seq_ok.mp h
  split at h
  · cases h
  rename_i hzero
  rcases commit_cases env s m t (retrieveClientAddress m s.transCache) with
    heq | ⟨p, hp, hw, heq⟩
  · rw [heq] at h
    cases h
  · rw [heq] at h
    cases h
    rw [retrieveLeaseTime_eq hp] at ht
    obtain rfl := Except.ok.inj ht
    exact ⟨not_not.mp hip, haddr.1, haddr.2, by simpa using hvalid, by simpa using hav, hw, p, hp,
      hzero, rfl⟩

/-- A REQUEST that passes the checks commits its lease whenever the file can be written. -/
theorem response_commits {o54 : DhcpOption} (hip : o54.ip = s.boundIp) (hci : m.ciaddr = 0)
    (hyi : m.yiaddr = 0) (hvalid : validateClientIdAndRequestedParams (env.seen s.transCache) m = true)
    (hav : allocatorIsAddressAvailable s.allocator (retrieveClientAddress m s.transCache) = false)
    (hp : allocatorGetPoolByAddress s.allocator (retrieveClientAddress m s.transCache) = some p)
    (ht : configuredLeaseTime s.allocator p ≠ 0) :
    dhcpRequestResponseToOffer env s m o54 =
      .ok (if env.writes then .ok else .invalid,
        s.setLeases (leaseAdd env.writes s.leases (newLease env.now m p
          (configuredLeaseTime s.allocator p) (retrieveClientAddress m s.transCache))).2) := by
  unfold dhcpRequestResponseToOffer
  have hzero := getPool_ne_zero hp
  simp only [hip, hci, hyi, hvalid, hav, hzero, ne_eq, not_true_eq_false, or_self, if_false,
    Bool.not_true, Bool.false_eq_true, retrieveLeaseTime_eq hp]
  show (if configuredLeaseTime s.allocator p = 0 then _ else _) = _
  rw [if_neg ht]
  unfold dhcpRequstCommitLease
  simp only [hp]
  cases env.writes <;> rfl

/-- A REQUEST that differs from its DISCOVER, as that is read, commits nothing. -/
theorem response_differs {o54 : DhcpOption} (hip : o54.ip = s.boundIp) (hci : m.ciaddr = 0)
    (hyi : m.yiaddr = 0)
    (hvalid : validateClientIdAndRequestedParams (env.seen s.transCache) m = false) :
    dhcpRequestResponseToOffer env s m o54 = .ok (.invalid, s) := by
  unfold dhcpRequestResponseToOffer
  simp only [hip, hci, hyi, hvalid, ne_eq, not_true_eq_false, or_self, if_false, Bool.not_false,
    if_true]
  rfl

/-- What a renewal has written when it succeeds. -/
theorem renew_ok (h : dhcpRequestRenewLease env s m = .ok (true, s')) :
    env.extends = true ∧ ∃ p r, FirstRecord s m.ciaddr p r ∧ r.clientMacAddress = m.mac ∧
      s' = s.setLeases (renewedLeases env s p r (configuredLeaseTime s.allocator p)) := by
  by_cases hren : Renewable s m
  · obtain ⟨p, r, hr, hmac⟩ := hren
    rw [renew_eq hr hmac, Except.ok.injEq, Prod.mk.injEq] at h
    exact ⟨h.1, p, r, hr, hmac, h.2.symm⟩
  · rw [renew_none hren] at h
    cases h

/-- The file of the pool after a renewal that could be written. -/
theorem renewedLeases_same (hext : env.extends = true) (hr : FirstRecord s m.ciaddr p r)
    (t : UInt32) : renewedLeases env s p r t p.name =
      (leaseRemove env.rewrite s.leases m.ciaddr p.name).2 p.name ++ [r.extend env.now t] := by
  unfold renewedLeases
  rw [hext, hr.address]
  simp [leaseAdd]

/-- After a renewal that could not be written there is what the removal has left. -/
theorem renewedLeases_lost (hext : env.extends = false) (hr : FirstRecord s m.ciaddr p r)
    (t : UInt32) : renewedLeases env s p r t =
      (leaseRemove env.rewrite s.leases m.ciaddr p.name).2 := by
  unfold renewedLeases
  rw [hext, hr.address]
  rfl

theorem renewedLeases_other {n : CString} (hn : n ≠ p.name) (t : UInt32) :
    renewedLeases env s p r t n = s.leases n := by
  unfold renewedLeases leaseAdd
  split
  · exact (LeaseStore.set_other hn _).trans (leaseRemove_other _ hn)
  · exact leaseRemove_other _ hn

end LeaseTime

end DHCPServer
