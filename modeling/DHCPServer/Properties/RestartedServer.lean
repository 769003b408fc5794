import DHCPServer.Properties.LeaseHistory
import DHCPServer.Properties.PoolStatus

namespace DHCPServer

/-- The allocator of a configuration before the leases are loaded. -/
def configuredAllocator (cfg : Config) : AddressAllocator :=
  ⟨initDhcpOptions cfg, configuredPools cfg⟩

/-- The lease time that is configured for a pool. -/
def Config.leaseTimeOf (cfg : Config) (p : AddressPool) : UInt32 :=
  configuredLeaseTime (configuredAllocator cfg) p

/-- The records of a file stand in the order in which they end, and none ends later than one that is
written at the time `now` for the lease time `t`. -/
structure Ordered (now t : UInt32) (l : List LeaseRecord) : Prop where
  sorted : l.Pairwise (·.leaseExpire ≤ ·.leaseExpire)
  bounded : ∀ r ∈ l, r.leaseExpire.toNat ≤ now.toNat + t.toNat

namespace Host

/-- The server is started for the first time; files that are there already are in order. -/
def Installed (cfg : Config) (h : Host) : Prop :=
  ∃ files now, h = ⟨startup cfg files now, now⟩ ∧
    ∀ p ∈ configuredPools cfg, Ordered now (cfg.leaseTimeOf p) (files p.name)

/-- The clock does not go back, and a lease written now ends before it wraps around. -/
def Timely (cfg : Config) (h : Host) (e : HostEvent) : Prop :=
  h.clock ≤ e.time ∧
    ∀ p ∈ configuredPools cfg, e.time.toNat + (cfg.leaseTimeOf p).toNat < 2 ^ 32

/-- The server has the configured pools, and their files are in order. -/
structure InOrder (cfg : Config) (h : Host) : Prop where
  sound : h.server.transCache.Sound
  shape : h.server.allocator.shape = (configuredAllocator cfg).shape
  ordered : ∀ p ∈ configuredPools cfg,
    Ordered h.clock (cfg.leaseTimeOf p) (h.server.leases p.name)

end Host

instance (cfg : Config) (h : Host) (e : HostEvent) : Decidable (h.Timely cfg e) :=
  inferInstanceAs (Decidable (_ ∧ _))

/-- What a start at the time `now` makes of a pool whose file holds the records `l`: the file keeps
those that still run, and their addresses, and no others, are allocated and not counted. -/
structure Restored (now : UInt32) (l : List LeaseRecord) (s : Server) (q : AddressPool) : Prop where
  file : s.leases q.name = l.filter (now < ·.leaseExpire)
  allocated : q.Covered → ∀ x, q.isAllocated x = true ↔
    addressBelongsToPool q x = true ∧ ∃ r ∈ l, r.address = x ∧ now < r.leaseExpire
  counted : q.Covered → q.availableAddresses.toNat =
    {x | addressBelongsToPool q x = true ∧ ∀ r ∈ l, r.address = x → r.leaseExpire ≤ now}.ncard

section Order

variable {now now' t : UInt32} {l l' : List LeaseRecord} {r : LeaseRecord}

theorem Ordered.sublist (h : Ordered now t l) (hl : l'.Sublist l) : Ordered now t l' :=
  ⟨h.sorted.sublist hl, fun r hr => h.bounded r (hl.subset hr)⟩

theorem Ordered.later (h : Ordered now t l) (hle : now ≤ now') : Ordered now' t l where
  sorted := h.sorted
  bounded := by
    intro r hr
    have hbound := h.bounded r hr
    have hnow := UInt32.le_iff_toNat_le.mp hle
    omega

/-- A record that is written now goes to its place at the end. -/
theorem Ordered.concat (h : Ordered now t l) (hr : r.leaseExpire = now + t)
    (hfit : now.toNat + t.toNat < 2 ^ 32) : Ordered now t (l ++ [r]) := by
  have hend : r.leaseExpire.toNat = now.toNat + t.toNat := by
    rw [hr, UInt32.toNat_add, Nat.mod_eq_of_lt hfit]
  refine ⟨List.pairwise_append.mpr ⟨h.sorted, List.pairwise_singleton _ _, ?_⟩, ?_⟩
  · intro q hq r' hr'
    rw [List.mem_singleton] at hr'
    subst hr'
    rw [UInt32.le_iff_toNat_le, hend]
    exact h.bounded q hq
  · intro q hq
    rcases List.mem_append.mp hq with hq | hq
    · exact h.bounded q hq
    · rw [List.mem_singleton] at hq
      subst hq
      exact hend.le

end Order

section Files

variable {cfg : Config} {env : Env} {s : Server} {m : Message} {l : LeaseStore} {n : CString}
  {now : UInt32} {p : AddressPool}

theorem updateTimers_sublist (env : Env) (s : Server) (n : CString) :
    ((updateTimers env s).leases n).Sublist (s.leases n) := by
  apply updateTimers_rule (P := fun _ l => (l n).Sublist (s.leases n))
  · exact List.Sublist.refl _
  · intro _ a l p x r hl _ _ _ _ _
    exact (leaseRemove_sublist _ l x p.name n).trans hl

/-- A step leaves a part of a file, and may put behind it one record that is written now, for the
lease time of the file's pool. -/
theorem LeaseStep.file_cases (h : LeaseStep env s m l) (n : CString) :
    (l n).Sublist (s.leases n) ∨
    ∃ p ∈ s.allocator.addressPools, p.name = n ∧ ∃ l' r, l n = l' ++ [r] ∧
      l'.Sublist (s.leases n) ∧ r.leaseExpire = env.now + configuredLeaseTime s.allocator p := by
  cases h with
  | same => exact .inl (List.Sublist.refl _)
  | @commit p r hc =>
    by_cases hn : n = p.name
    · subst hn
      refine .inr ⟨p, List.mem_of_find?_eq_some hc.pool, rfl, s.leases p.name, r, ?_,
        List.Sublist.refl _, ?_⟩
      · exact LeaseStore.set_same _ _ _
      · rw [hc.record]
        rfl
    · have hother : (leaseAdd true s.leases ⟨r, p.name⟩).2 n = s.leases n :=
        LeaseStore.set_other hn _
      rw [hother]
      exact .inl (List.Sublist.refl _)
  | @renew p r hren =>
    by_cases hn : n = p.name
    · subst hn
      cases hext : env.extends with
      | false =>
        rw [renewedLeases_lost hext hren.first]
        exact .inl (leaseRemove_sublist _ _ _ _ _)
      | true =>
        refine .inr ⟨p, List.mem_of_find?_eq_some hren.first.pool, rfl, _, _,
          renewedLeases_same hext hren.first _, leaseRemove_sublist _ _ _ _ _, rfl⟩
    · rw [renewedLeases_other hn]
      exact .inl (List.Sublist.refl _)
  | release _ _ => exact .inl (leaseRemove_sublist _ _ _ _ _)

/-- The pools of a running server have the names and the lease times of the configured ones. -/
theorem leaseTime_of_shape (hs : s.allocator.shape = (configuredAllocator cfg).shape)
    (hp : p ∈ s.allocator.addressPools) : ∃ q ∈ configuredPools cfg, q.name = p.name ∧
      cfg.leaseTimeOf q = configuredLeaseTime s.allocator p := by
  obtain ⟨q, hq, hshape⟩ := AddressAllocator.exists_same_shape hs hp
  have hdefault : (configuredAllocator cfg).defaultOptions = s.allocator.defaultOptions :=
    congrArg Prod.fst hs.symm
  have hoverride : q.dhcpOptionOverride = p.dhcpOptionOverride :=
    congrArg (fun shape => shape.2.2.2.2) hshape
  refine ⟨q, hq, congrArg Prod.fst hshape, ?_⟩
  rw [Config.leaseTimeOf, configuredLeaseTime, configuredLeaseTime, hdefault, hoverride]

theorem configuredPool_unique {p q : AddressPool} (hp : p ∈ configuredPools cfg)
    (hq : q ∈ configuredPools cfg) (h : p.name = q.name) : p = q :=
  List.inj_on_of_nodup_map (configuredPools_names cfg) hp hq h

theorem LeaseStep.ordered (h : LeaseStep env s m l)
    (hs : s.allocator.shape = (configuredAllocator cfg).shape) (hp : p ∈ configuredPools cfg)
    (hfit : env.now.toNat + (cfg.leaseTimeOf p).toNat < 2 ^ 32)
    (ho : Ordered env.now (cfg.leaseTimeOf p) (s.leases p.name)) :
    Ordered env.now (cfg.leaseTimeOf p) (l p.name) := by
  rcases h.file_cases p.name with hsub | ⟨p', hp', hname, l', r, heq, hsub, hend⟩
  · exact ho.sublist hsub
  · obtain ⟨q, hq, hqname, htime⟩ := leaseTime_of_shape hs hp'
    obtain rfl : q = p := configuredPool_unique hq hp (hqname.trans hname)
    rw [heq]
    apply (ho.sublist hsub).concat _ hfit
    rw [hend, htime]

/-- A start keeps the records that still run. -/
theorem startup_file {files : LeaseStore} (hp : p ∈ configuredPools cfg)
    (hsorted : (files p.name).Pairwise (·.leaseExpire ≤ ·.leaseExpire)) :
    (startup cfg files now).leases p.name = (files p.name).filter (now < ·.leaseExpire) := by
  have hload : (loadPoolLeases now files p).1 p.name =
      [] ++ (files p.name).filter (·.runsAt now) := load_sorted rfl hsorted (.inl rfl)
  rw [List.nil_append] at hload
  refine ((initLoad_eq (configuredPools_names cfg)).2 p hp).trans (hload.trans ?_)
  exact List.filter_congr fun r _ => runsAt_eq r

end Files

namespace Host

variable {cfg : Config} {h h' : Host} {e : HostEvent}

theorem Installed.inOrder (hi : h.Installed cfg) : h.InOrder cfg := by
  obtain ⟨files, now, rfl, hfiles⟩ := hi
  refine ⟨startup_sound cfg files now, startup_shape cfg files now, ?_⟩
  intro p hp
  show Ordered now _ ((startup cfg files now).leases p.name)
  rw [startup_file hp (hfiles p hp).sorted]
  exact (hfiles p hp).sublist List.filter_sublist

theorem InOrder.step (hi : h.InOrder cfg) (ht : h.Timely cfg e) (hstep : h.step cfg e = .ok h') :
    h'.InOrder cfg := by
  have hsound := step_sound hi.sound hstep
  have hlater : ∀ p ∈ configuredPools cfg,
      Ordered e.time (cfg.leaseTimeOf p) (h.server.leases p.name) :=
    fun p hp => (hi.ordered p hp).later ht.1
  rcases step_cases hi.sound hstep with ⟨now, rfl, rfl⟩ | ⟨a, rfl, hclock, hserve, hfiles⟩
  · refine ⟨hsound, startup_shape cfg _ now, ?_⟩
    intro p hp
    show Ordered now _ ((startup cfg h.server.leases now).leases p.name)
    rw [startup_file hp (hlater p hp).sorted]
    exact (hlater p hp).sublist List.filter_sublist
  · have hticked : ∀ p ∈ configuredPools cfg, Ordered a.env.now (cfg.leaseTimeOf p)
        ((updateTimers a.env h.server).leases p.name) :=
      fun p hp => (hlater p hp).sublist (updateTimers_sublist _ _ _)
    refine ⟨hsound, ?_, ?_⟩
    · rw [serve_shape hi.sound hserve, hi.shape]
    · intro p hp
      rw [hclock]
      rcases hfiles with ⟨-, hleases⟩ | ⟨m, s, -, hrec, hleases⟩
      · rw [hleases]
        exact hticked p hp
      · apply hleases.ordered _ hp (ht.2 p hp)
        · rw [hrec.leases]
          exact hticked p hp
        · rw [hrec.allocator, updateTimers_shape, hi.shape]

theorem reachable_inOrder (hr : Reachable (step cfg) (Timely cfg) (Installed cfg) h) :
    h.InOrder cfg :=
  hr.invariant (fun _ hi => hi.inOrder) fun _ _ _ hi ht hstep => hi.step ht hstep

end Host

/-- A start finds the pools and the options as the server before had them, whenever it comes in a
run with a clock that does not go back. Of each file it keeps the leases that still run, every
record of them, and their addresses, and no others, are allocated and taken from the counter. -/
theorem restart_restores {cfg : Config} {h : Host}
    (hr : Reachable (Host.step cfg) (Host.Timely cfg) (Host.Installed cfg) h) (now : UInt32) :
    (startup cfg h.server.leases now).allocator.shape = h.server.allocator.shape ∧
    ∀ q ∈ (startup cfg h.server.leases now).allocator.addressPools,
      Restored now (h.server.leases q.name) (startup cfg h.server.leases now) q := by
  have hi := Host.reachable_inOrder hr
  refine ⟨(startup_shape cfg _ now).trans hi.shape.symm, ?_⟩
  intro q hq
  obtain ⟨p, hp, hload, hshape, -⟩ := startup_pool hq
  have hname : q.name = p.name := congrArg Prod.fst hshape
  have hallocated : q.Covered → ∀ x, q.isAllocated x = true ↔ addressBelongsToPool q x = true ∧
      ∃ r ∈ h.server.leases q.name, r.address = x ∧ now < r.leaseExpire := by
    intro hc x
    rw [AddressPool.belongs_of_shape hshape, hname]
    constructor
    · intro hx
      have hb := AddressPool.belongs_of_isAllocated hx
      rw [AddressPool.belongs_of_shape hshape] at hb
      refine ⟨hb, ?_⟩
      rw [hload] at hx
      rcases load_isAllocated hx with hfree | ⟨r, hr, hrx, hrun⟩
      · rw [configuredPools_free cfg p hp x] at hfree
        cases hfree
      · exact ⟨r, hr, hrx, by simpa [runsAt_eq] using hrun⟩
    · rintro ⟨hb, r, hr, rfl, hrun⟩
      rw [hload]
      exact load_marks ((AddressPool.covered_of_shape hshape).mp hc) hr
        (by simpa [runsAt_eq] using hrun) hb
  refine ⟨?_, hallocated, ?_⟩
  · rw [hname]
    exact startup_file hp (hi.ordered p hp).sorted
  · intro hc
    rw [startup_counts cfg _ now q hq hc]
    congr 1
    ext x
    show (addressBelongsToPool q x = true ∧ ¬q.isAllocated x = true) ↔ _
    rw [hallocated hc x]
    simp only [Set.mem_ofPred_eq, not_and, not_exists, UInt32.not_lt]
    constructor
    · exact fun hx => ⟨hx.1, hx.2 hx.1⟩
    · exact fun hx => ⟨hx.1, fun _ => hx.2⟩

theorem smallServer_installed : Host.Installed smallNetwork ⟨smallServer, 1000⟩ :=
  ⟨_, _, rfl, fun _ _ => ⟨List.Pairwise.nil, by simp⟩⟩

/-- A run of the small network's server, found by evaluation. -/
theorem runs_timely {es : List HostEvent} {Q : Host → Bool}
    (h : (es.foldlM (Reachable.checked (Host.step smallNetwork)
      fun h e => decide (h.Timely smallNetwork e)) ⟨smallServer, 1000⟩).any Q = true) :
    ∃ h, Reachable (Host.step smallNetwork) (Host.Timely smallNetwork)
      (Host.Installed smallNetwork) h ∧ Q h = true :=
  Reachable.of_run (fun _ _ => of_decide_eq_true) es smallServer_installed h

/-- A client gets a lease, and its REQUEST comes in once more. -/
def requestSentTwice : List HostEvent :=
  [.pass (discoverBy 1000 7 1), .pass (requestBy 1001 7 1 1), .pass (requestBy 1002 7 1 1)]

theorem restart_restores_repeated :
    ∃ h, Reachable (Host.step smallNetwork) (Host.Timely smallNetwork)
        (Host.Installed smallNetwork) h ∧ (h.server.leases ['a']).length = 2 ∧
      (startup smallNetwork h.server.leases 4601).allocator.shape = h.server.allocator.shape ∧
      ∀ q ∈ (startup smallNetwork h.server.leases 4601).allocator.addressPools,
        Restored 4601 (h.server.leases q.name) (startup smallNetwork h.server.leases 4601) q := by
  have hrun : (requestSentTwice.foldlM (Reachable.checked (Host.step smallNetwork)
      fun h e => decide (h.Timely smallNetwork e)) ⟨smallServer, 1000⟩).any
      (fun h => (h.server.leases ['a']).length == 2) = true := by decide +kernel
  obtain ⟨h, hreach, hlen⟩ := runs_timely hrun
  exact ⟨h, hreach, by simpa using hlen, restart_restores hreach 4601⟩

end DHCPServer
