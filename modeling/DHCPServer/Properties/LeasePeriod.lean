import DHCPServer.Server.LeaseWrites
import DHCPServer.Server.Startup

namespace DHCPServer

/-- The record `r` that the REQUEST `m` makes the server write, at the end of the file of the pool
of the address asked for, and the lease time configured there. A renewal writes it behind what
`lease_remove` has left in the file. -/
inductive WrittenLease (env : Env) (s : Server) (m : Message) (r : LeaseRecord) : UInt32 → Prop
  | commit {o54 : DhcpOption} {s₁ : Server} {p : AddressPool} :
      m.option Tag.serverIdentifier = some o54 →
      dhcpRequestResponseToOffer env s m o54 = .ok (.ok, s₁) →
      allocatorGetPoolByAddress s.allocator (retrieveClientAddress m s.transCache) = some p →
      s₁.leases p.name = s.leases p.name ++ [r] →
      WrittenLease env s m r (configuredLeaseTime s.allocator p)
  | renewal {s₁ : Server} {p : AddressPool} :
      m.option Tag.serverIdentifier = none → dhcpRequestRenewLease env s m = .ok (true, s₁) →
      allocatorGetPoolByAddress s.allocator m.ciaddr = some p →
      s₁.leases p.name = (leaseRemove env.rewrite s.leases m.ciaddr p.name).2 p.name ++ [r] →
      WrittenLease env s m r (configuredLeaseTime s.allocator p)

/-- A lease for the time `t` does not end before it starts, and counts as unexpired at every reading
of the clock before its time has passed. -/
def OutlastsTime (r : LeaseRecord) (t : UInt32) : Prop :=
  r.leaseStart ≤ r.leaseExpire ∧
    ∀ now : UInt32, r.leaseStart ≤ now → now.toNat < r.leaseStart.toNat + t.toNat →
      now < r.leaseExpire

section Period

variable {env : Env} {s s' : Server} {m : Message} {r : LeaseRecord} {t : UInt32}

theorem outlastsTime_iff (h : r.leaseExpire = r.leaseStart + t) :
    OutlastsTime r t ↔ r.leaseStart.toNat + t.toNat < 2 ^ 32 := by
  have hexpire : r.leaseExpire.toNat = (r.leaseStart.toNat + t.toNat) % 2 ^ 32 := by
    rw [h, UInt32.toNat_add]
  have hstart := r.leaseStart.toNat_lt
  have htime := t.toNat_lt
  unfold OutlastsTime
  simp only [UInt32.le_iff_toNat_le, UInt32.lt_iff_toNat_lt]
  constructor
  · intro h
    have hle := h.1
    omega
  · intro hfit
    refine ⟨by omega, ?_⟩
    intro now hfrom hto
    omega

/-- What is written, in terms of the pool and of the record that is renewed. -/
theorem WrittenLease.record (h : WrittenLease env s m r t) : env.writes = true ∧
    ∃ p, t = configuredLeaseTime s.allocator p ∧
      ((allocatorGetPoolByAddress s.allocator (retrieveClientAddress m s.transCache) = some p ∧
          (∃ o54, m.option Tag.serverIdentifier = some o54) ∧
          r = (newLease env.now m p t (retrieveClientAddress m s.transCache)).record) ∨
        (m.option Tag.serverIdentifier = none ∧
          ∃ r₀, FirstRecord s m.ciaddr p r₀ ∧ r = r₀.extend env.now t)) := by
  cases h with
  | @commit o54 s₁ p h54 hresp hp hfile =>
    obtain ⟨-, -, -, -, -, hw, q, hq, -, rfl⟩ := response_ok hresp
    obtain rfl : p = q := Option.some.inj (hp.symm.trans hq)
    have hlast : s.leases p.name ++ [(newLease env.now m p (configuredLeaseTime s.allocator p)
        (retrieveClientAddress m s.transCache)).record] = s.leases p.name ++ [r] := by
      rw [← hfile]
      exact (LeaseStore.set_same _ _ _).symm
    have hr := List.singleton_inj.mp (List.append_cancel_left hlast)
    exact ⟨hw, p, rfl, .inl ⟨hp, ⟨o54, h54⟩, hr.symm⟩⟩
  | @renewal s₁ p h54 hrenew hp hfile =>
    obtain ⟨hw, q, r₀, hr₀, -, rfl⟩ := renew_ok hrenew
    obtain rfl : p = q := Option.some.inj (hp.symm.trans hr₀.pool)
    rw [Server.setLeases_leases, renewedLeases_same hw hr₀] at hfile
    have hr := List.singleton_inj.mp (List.append_cancel_left hfile)
    exact ⟨(Env.extends_iff.mp hw).1, p, rfl, .inr ⟨h54, r₀, hr₀, hr.symm⟩⟩

/-- Whenever a lease is committed or extended, a record is written. -/
theorem WritesLease.written (h : WritesLease env s m) : ∃ r t, WrittenLease env s m r t := by
  rcases h with ⟨o54, s₁, h54, hresp⟩ | ⟨h54, s₁, hrenew⟩
  · obtain ⟨-, -, -, -, -, -, p, hp, -, rfl⟩ := response_ok hresp
    exact ⟨_, _, .commit h54 hresp hp (LeaseStore.set_same _ _ _)⟩
  · obtain ⟨hw, p, r, hr, -, rfl⟩ := renew_ok hrenew
    exact ⟨_, _, .renewal h54 hrenew hr.pool (renewedLeases_same hw hr _)⟩

/-- The record that is written starts now and ends when its time has passed, computed in 32
bits. -/
theorem WrittenLease.period (h : WrittenLease env s m r t) :
    r.leaseStart = env.now ∧ r.leaseExpire = env.now + t := by
  obtain ⟨-, p, -, ⟨-, -, rfl⟩ | ⟨-, r₀, -, rfl⟩⟩ := h.record
  · exact ⟨rfl, rfl⟩
  · exact ⟨rfl, rfl⟩

/-- A renewal that is carried out, in a pool with this lease time, writes a record for it. -/
theorem WrittenLease.of_renewal {s₀ : Server} {e : Event} {time : UInt32}
    (hany : (handled s₀ e).any (fun x => (x.1.option Tag.serverIdentifier).isNone &&
      (dhcpRequestRenewLease e.env x.2 x.1).toOption.any (·.1) &&
      (allocatorGetPoolByAddress x.2.allocator x.1.ciaddr).any fun p =>
        configuredLeaseTime x.2.allocator p == time) = true) :
    ∃ m s r, handled s₀ e = some (m, s) ∧ WrittenLease e.env s m r time := by
  obtain ⟨⟨m, s⟩, hm, hq⟩ := (Option.any_eq_true _ _).mp hany
  simp only [Bool.and_eq_true, Option.isNone_iff_eq_none] at hq
  obtain ⟨⟨h54, hrun⟩, hpool⟩ := hq
  obtain ⟨⟨ok, s'⟩, hrenew, rfl⟩ := exists_ok_of_any hrun
  obtain ⟨p, hp, ht⟩ := (Option.any_eq_true _ _).mp hpool
  obtain ⟨hw, q, r, hr, -, rfl⟩ := renew_ok hrenew
  obtain rfl : p = q := Option.some.inj (hp.symm.trans hr.pool)
  have hwritten := WrittenLease.renewal h54 hrenew hr.pool (renewedLeases_same hw hr _)
  rw [beq_iff_eq.mp ht] at hwritten
  exact ⟨m, s, _, hm, hwritten⟩

end Period

/-- The end of a lease that a commit or a renewal writes is right exactly when the sum of the
current time and the configured lease time fits into 32 bits. -/
theorem lease_end_does_not_wrap_iff {env : Env} {s : Server} {m : Message} {r : LeaseRecord}
    {t : UInt32} (h : WrittenLease env s m r t) :
    OutlastsTime r t ↔ env.now.toNat + t.toNat < 2 ^ 32 := by
  obtain ⟨hstart, hexpire⟩ := h.period
  rw [outlastsTime_iff (by rw [hexpire, hstart]), hstart]

/-- The lease of 10.0.0.1 that its owner renews runs for an hour. -/
theorem renewal_outlasts_hour : ∃ m s r, handled leasedServer (renewBy 1002 7 0x0a000001 1) =
    some (m, s) ∧ WrittenLease (renewBy 1002 7 0x0a000001 1).env s m r 3600 ∧
    OutlastsTime r 3600 := by
  obtain ⟨m, s, r, hm, hwritten⟩ :=
    @WrittenLease.of_renewal leasedServer (renewBy 1002 7 0x0a000001 1) 3600 (by decide +kernel)
  refine ⟨m, s, r, hm, hwritten, (lease_end_does_not_wrap_iff hwritten).mpr ?_⟩
  decide

/-- The small network with leases that are meant to last forever. -/
def unlimitedNetwork : Config := { smallNetwork with leaseTime := 0xffffffff }

/-- A lease of unlimited time ends a second before it starts. -/
theorem unlimited_lease_has_ended :
    ¬∀ env s m r t, WrittenLease env s m r t → OutlastsTime r t := by
  intro h
  obtain ⟨m, s, r, -, hwritten⟩ :=
    @WrittenLease.of_renewal (startup unlimitedNetwork leasedFiles 1000)
      (renewBy 1002 7 0x0a000001 1) 0xffffffff (by decide +kernel)
  have hle : r.leaseStart ≤ r.leaseExpire := (h _ _ _ _ _ hwritten).1
  rw [hwritten.period.1, hwritten.period.2] at hle
  exact absurd hle (by decide)

end DHCPServer
