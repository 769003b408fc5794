import DHCPServer.Server.LeaseWrites
import DHCPServer.Server.Startup

namespace DHCPServer

/-- No pool contains the client's address, the file of the first one that does has no record for
it, or the first such record is another client's. -/
def NothingToRenew (s : Server) (m : Message) : Prop :=
  allocatorGetPoolByAddress s.allocator m.ciaddr = none ∨
    ∃ p, allocatorGetPoolByAddress s.allocator m.ciaddr = some p ∧
      ((s.leases p.name).find? (·.address == m.ciaddr) = none ∨
        ∃ r, (s.leases p.name).find? (·.address == m.ciaddr) = some r ∧
          r.clientMacAddress ≠ m.mac)

/-- The effect a renewal is meant to have: the first record of the address moves to the end of its
file with a new period, unless there is nothing to renew; nothing else changes. -/
structure RenewsExactly (env : Env) (s s' : Server) (m : Message) : Prop where
  allocator : s'.allocator = s.allocator
  leases : (NothingToRenew s m ∧ s'.leases = s.leases) ∨
    ∃ p r, allocatorGetPoolByAddress s.allocator m.ciaddr = some p ∧
      (s.leases p.name).find? (·.address == m.ciaddr) = some r ∧ r.clientMacAddress = m.mac ∧
      s'.leases p.name = (s.leases p.name).eraseP (·.address == m.ciaddr) ++
        [{ r with
          leaseStart := env.now
          leaseExpire := env.now + configuredLeaseTime s.allocator p }] ∧
      ∀ n, n ≠ p.name → s'.leases n = s.leases n

/-- The file cannot be opened, or neither cut nor extended, and it reads as the renewal would have
left it. -/
def AlreadyRenewed (env : Env) (s : Server) (m : Message) : Prop :=
  (env.rewrite = .notOpened ∨ (env.rewrite = .notTruncated ∧ env.writes = false)) ∧
    ∃ p r, FirstRecord s m.ciaddr p r ∧ r.clientMacAddress = m.mac ∧
      s.leases p.name = (s.leases p.name).eraseP (·.address == m.ciaddr) ++
        [r.extend env.now (configuredLeaseTime s.allocator p)]

section Renewal

variable {env : Env} {s s' : Server} {m : Message} {p : AddressPool} {r : LeaseRecord}

theorem nothingToRenew_iff : NothingToRenew s m ↔ ¬Renewable s m := by
  constructor
  · rintro (hnone | ⟨p, hp, hrec⟩) ⟨q, r, hr, hmac⟩
    · rw [hr.pool] at hnone
      cases hnone
    · obtain rfl : p = q := Option.some.inj (hp.symm.trans hr.pool)
      rcases hrec with hnone | ⟨r', hr', hmac'⟩
      · rw [hr.first] at hnone
        cases hnone
      · obtain rfl : r' = r := Option.some.inj (hr'.symm.trans hr.first)
        exact hmac' hmac
  · intro h
    cases hp : allocatorGetPoolByAddress s.allocator m.ciaddr with
    | none => exact .inl hp
    | some p =>
      refine .inr ⟨p, hp, ?_⟩
      cases hr : (s.leases p.name).find? (·.address == m.ciaddr) with
      | none => exact .inl rfl
      | some r => exact .inr ⟨r, rfl, fun hmac => h ⟨p, r, ⟨hp, hr⟩, hmac⟩⟩

/-- Of a renewal that is due the effect is decided by the file of the pool. -/
theorem renewsExactly_iff_file (hr : FirstRecord s m.ciaddr p r)
    (hmac : r.clientMacAddress = m.mac) :
    RenewsExactly env s
        (s.setLeases (renewedLeases env s p r (configuredLeaseTime s.allocator p))) m ↔
      renewedLeases env s p r (configuredLeaseTime s.allocator p) p.name =
        (s.leases p.name).eraseP (·.address == m.ciaddr) ++
          [r.extend env.now (configuredLeaseTime s.allocator p)] := by
  constructor
  · intro h
    rcases h.leases with ⟨hnone, -⟩ | ⟨q, r', hq, hr', -, hfile, -⟩
    · exact absurd ⟨p, r, hr, hmac⟩ (nothingToRenew_iff.mp hnone)
    · obtain rfl : p = q := Option.some.inj (hr.pool.symm.trans hq)
      obtain rfl : r = r' := Option.some.inj (hr.first.symm.trans hr')
      exact hfile
  · intro hfile
    exact ⟨rfl, .inr ⟨p, r, hr.pool, hr.first, hmac, hfile, fun n hn => renewedLeases_other hn _⟩⟩

/-- The renewed record stands alone at the end of the file when both writes succeed, or when it
stood there and none is made. -/
theorem renewed_file_iff (hr : FirstRecord s m.ciaddr p r) (t : UInt32) :
    renewedLeases env s p r t p.name =
        (s.leases p.name).eraseP (·.address == m.ciaddr) ++ [r.extend env.now t] ↔
      (env.rewrite = .done ∧ env.writes = true) ∨
      ((env.rewrite = .notOpened ∨ (env.rewrite = .notTruncated ∧ env.writes = false)) ∧
        s.leases p.name =
          (s.leases p.name).eraseP (·.address == m.ciaddr) ++ [r.extend env.now t]) := by
  cases hext : env.extends with
  | true =>
    obtain ⟨hw, hopen, hcut⟩ := Env.extends_iff.mp hext
    rw [renewedLeases_same hext hr, List.append_cancel_right_eq]
    cases hrew : env.rewrite with
    | done => simp [hw, leaseRemove_same]
    | notOpened => exact absurd hrew hopen
    | notWritten => exact absurd hrew hcut
    | notTruncated =>
      -- the old record has stayed beside the new one
      obtain ⟨pre, post, hsplit, herase⟩ := find?_split hr.first
      have hlonger : s.leases p.name ≠ (s.leases p.name).eraseP (·.address == m.ciaddr) := by
        rw [herase, hsplit]
        simp
      simp [leaseRemove, hlonger, hw]
  | false =>
    rw [renewedLeases_lost hext hr]
    cases hrew : env.rewrite with
    | done =>
      have hw : env.writes = false := by simpa [Env.extends, hrew] using hext
      simp [hw, leaseRemove_same]
    | notOpened => simp [leaseRemove]
    | notTruncated =>
      have hw : env.writes = false := by simpa [Env.extends, hrew] using hext
      simp [hw, leaseRemove]
    | notWritten => simp [leaseRemove_notWritten]

end Renewal

/-- A renewal always returns, and it has exactly the effect that is meant whenever the lease file
can be written, there is nothing to renew, or the file reads so without being written. -/
theorem renewal_exact_iff (env : Env) (s : Server) (m : Message) :
    ∃ ok s', dhcpRequestRenewLease env s m = .ok (ok, s') ∧
      (RenewsExactly env s s' m ↔
        (env.rewrite = .done ∧ env.writes = true) ∨ NothingToRenew s m ∨
          AlreadyRenewed env s m) := by
  by_cases hren : Renewable s m
  · obtain ⟨p, r, hr, hmac⟩ := hren
    refine ⟨_, _, renew_eq hr hmac, ?_⟩
    rw [renewsExactly_iff_file hr hmac, renewed_file_iff hr]
    constructor
    · rintro (hdone | ⟨hkept, hfile⟩)
      · exact .inl hdone
      · exact .inr (.inr ⟨hkept, p, r, hr, hmac, hfile⟩)
    · rintro (hdone | hnone | ⟨hkept, q, r', hr', -, hfile⟩)
      · exact .inl hdone
      · exact absurd ⟨p, r, hr, hmac⟩ (nothingToRenew_iff.mp hnone)
      · obtain rfl : p = q := Option.some.inj (hr.pool.symm.trans hr'.pool)
        obtain rfl : r = r' := Option.some.inj (hr.first.symm.trans hr'.first)
        exact .inr ⟨hkept, hfile⟩
  · have hnone := nothingToRenew_iff.mpr hren
    exact ⟨_, _, renew_none hren, iff_of_true ⟨rfl, .inl ⟨hnone, rfl⟩⟩ (.inr (.inl hnone))⟩

/-- The owner of 10.0.0.1 renews its lease while lease files cannot be extended. -/
def renewalUnwritten : Event :=
  { renewBy 1002 7 0x0a000001 1 with env := { Env.fair 1002 with writes := false } }

/-- The lease is taken out of its file and lost. -/
theorem renewal_loses_lease :
    ¬∀ env s m ok s', m.option Tag.serverIdentifier = none → m.ciaddr ≠ 0 →
      dhcpRequestRenewLease env s m = .ok (ok, s') → RenewsExactly env s s' m := by
  intro h
  have hany : (handled leasedServer renewalUnwritten).any (fun x =>
      (x.1.option Tag.serverIdentifier).isNone && x.1.ciaddr != 0 &&
      x.2.allocator.poolNames.all (· == ['a']) && (x.2.leases ['a']).length == 1 &&
      (dhcpRequestRenewLease renewalUnwritten.env x.2 x.1).toOption.any fun y =>
        (y.2.leases ['a']).isEmpty) = true := by decide +kernel
  obtain ⟨⟨m, s⟩, -, hq⟩ := (Option.any_eq_true _ _).mp hany
  simp only [Bool.and_eq_true, bne_iff_ne, List.all_eq_true, beq_iff_eq,
    Option.isNone_iff_eq_none] at hq
  obtain ⟨⟨⟨⟨h54, hci⟩, hnames⟩, hone⟩, hrun⟩ := hq
  obtain ⟨⟨ok, s'⟩, hs', hempty⟩ := exists_ok_of_any hrun
  rw [List.isEmpty_iff] at hempty
  have heffect := h _ _ _ ok s' h54 hci hs'
  rcases heffect.leases with ⟨-, hsame⟩ | ⟨p, r, hp, -, -, hfile, -⟩
  · rw [← hsame, hempty] at hone
    cases hone
  · have hname : p.name = ['a'] :=
      hnames p.name (List.mem_map_of_mem (List.mem_of_find?_eq_some hp))
    rw [hname, hempty] at hfile
    simp at hfile

end DHCPServer
