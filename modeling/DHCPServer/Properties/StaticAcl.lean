import DHCPServer.Server.Host

namespace DHCPServer

/-- The access list lets the client with this hardware address through. -/
def Admits (acl : Acl) (mac : Mac) : Prop := aclCheckClient acl mac = .allow

section KeptList

variable {env : Env} {s s' : Server} {m : Message}

theorem DeliversSome.acl {P : Message → Prop} (h : DeliversSome env s s' P) : s'.acl = s.acl := by
  rcases h with rfl | ⟨reply, -, hd⟩
  · rfl
  · cases hd <;> rfl

theorem sendAck_acl {ok : Bool} {ack : Message} {options : Except Fault (Option (List DhcpOption))}
    (h : sendAck env s ack options = .ok (ok, s')) : s'.acl = s.acl :=
  (sendAck_delivers (P := fun _ => True) h fun _ _ => trivial).acl

theorem request_acl {rv : Int} (h : messageDhcprequestHandle env s m = .ok (rv, s')) :
    s'.acl = s.acl := by
  unfold messageDhcprequestHandle at h
  cases h54 : m.option Tag.serverIdentifier with
  | some o54 =>
    simp only [h54] at h
    obtain ⟨⟨status, s₁⟩, hresp, h⟩ := seq_ok.mp h
    have hs₁ : s₁.acl = s.acl := by
      rcases response_cases h54 hresp with ⟨-, rfl⟩ | ⟨-, lease, -, rfl⟩ <;> rfl
    rw [← hs₁]
    cases status with
    | ok =>
      obtain ⟨o50, -, h⟩ := seq_ok.mp h
      obtain ⟨⟨ok, s₂⟩, hb, h⟩ := seq_ok.mp h
      cases h
      exact sendAck_acl hb
    | differentServerIdentificator =>
      cases h
      rfl
    | commitError | invalid | error =>
      have hs' : (messageDhcpnakBuild env s₁ m).2 = s' := congrArg Prod.snd (Except.ok.inj h)
      rw [← hs']
      exact (nakBuild_delivers (P := fun _ => True) env s₁ m fun _ _ => trivial).acl
  | none =>
    simp only [h54] at h
    split at h
    · cases h
      rfl
    · obtain ⟨⟨renewed, s₁⟩, hren, h⟩ := seq_ok.mp h
      obtain ⟨⟨ok, s₂⟩, hb, h⟩ := seq_ok.mp h
      cases h
      have hs₁ : s₁.acl = s.acl := by
        rcases renew_cases hren with ⟨rfl, -, -⟩ | ⟨p, r, t, -, -, -, rfl⟩ <;> rfl
      exact (sendAck_acl hb).trans hs₁

/-- No handler writes to the static list. -/
theorem dispatch_acl {rv : Int} (h : dispatch env s m = .ok (rv, s')) : s'.acl = s.acl := by
  unfold dispatch at h
  split at h
  · unfold messageDhcpdiscoverHandle at h
    dsimp only at h
    split at h
    · cases h
      rfl
    split at h
    · cases h
      rfl
    · obtain ⟨⟨ok, s₁⟩, hb, h⟩ := seq_ok.mp h
      cases h
      exact (offerBuild_delivers (P := fun _ => True) hb fun _ _ => trivial).acl
  split at h
  · exact request_acl h
  split at h
  · have hs' : (messageDhcpdeclineHandle s m).2 = s' := congrArg Prod.snd (Except.ok.inj h)
    rw [← hs']
    rcases decline_handle_cases s m with heq | ⟨ack, -, -, heq⟩
    · rw [heq]
    · rw [heq]
      rfl
  split at h
  · obtain ⟨⟨ok, s₁⟩, hb, h⟩ := seq_ok.mp h
    cases h
    unfold messageDhcpackBuildInformResponse at hb
    split at hb
    · cases hb
      rfl
    · exact sendAck_acl hb
  split at h
  · have hs' : (messageDhcpreleaseHandle env s m).2 = s' := congrArg Prod.snd (Except.ok.inj h)
    rw [← hs']
    rcases release_handle_cases env s m with ⟨heq, -⟩ | ⟨p, r, -, -, heq⟩
    · rw [heq]
    · rw [heq]
      rfl
  · cases h
    rfl

theorem updateTimers_acl (env : Env) (s : Server) : (updateTimers env s).acl = s.acl := by
  rw [updateTimers_eq]
  split <;> rfl

/-- The receive step does not write to the list either, and what it accepts the list admits. -/
theorem accept_admits {d : Datagram} {accepted : Option Message}
    (h : accept env s d = .ok (accepted, s')) :
    s'.acl = s.acl ∧ ∀ m, accepted = some m → Admits s.acl m.mac := by
  obtain ⟨⟨ok, m⟩, -, h⟩ := seq_ok.mp h
  dsimp only at h
  split at h
  · cases h
    exact ⟨rfl, nofun⟩
  split at h
  · cases h
    exact ⟨rfl, nofun⟩
  split at h
  · cases h
    exact ⟨rfl, nofun⟩
  rename_i hadmits
  split at h
  · cases h
    exact ⟨rfl, nofun⟩
  split at h
  · cases h
    exact ⟨rfl, nofun⟩
  split at h
  · cases h
    exact ⟨rfl, nofun⟩
  · cases h
    refine ⟨rfl, ?_⟩
    intro m' hm'
    cases hm'
    exact not_not.mp hadmits

theorem handled_admits {e : Event} {s₂ : Server} (h : handled s e = some (m, s₂)) :
    Admits s.acl m.mac := by
  obtain ⟨d, -, ha⟩ := handled_eq_some.mp h
  have hadmits := (accept_admits ha).2 m rfl
  rwa [updateTimers_acl] at hadmits

theorem serve_acl {e : Event} (h : serve s e = .ok s') : s'.acl = s.acl := by
  have htick := updateTimers_acl e.env s
  unfold serve at h
  cases hd : e.datagram with
  | none =>
    simp only [hd] at h
    cases h
    exact htick
  | some d =>
    simp only [hd] at h
    obtain ⟨⟨accepted, s₂⟩, ha, h⟩ := seq_ok.mp h
    have hacl := (accept_admits ha).1.trans htick
    cases accepted with
    | none =>
      cases h
      exact hacl
    | some m =>
      obtain ⟨⟨rv, s₃⟩, hdisp, h⟩ := seq_ok.mp h
      cases h
      exact (dispatch_acl hdisp).trans hacl

end KeptList

/-- Only clients that the list admits have been served: what is cached, what has been sent since
the start, and the records that are not old ones, are theirs. -/
structure ServesAdmitted (acl : Acl) (old : LeaseStore) (s : Server) : Prop where
  cached : s.transCache.All fun m => Admits acl m.mac
  sent : ∀ k ∈ s.sent, Admits acl k.message.mac
  leases : ∀ n, ∀ r ∈ s.leases n, r ∈ old n ∨ Admits acl r.clientMacAddress

section Admission

variable {env : Env} {s s' : Server} {m : Message} {acl : Acl} {old : LeaseStore}

theorem ServesAdmitted.replied {now : UInt32} {P : Message → Prop} (h : ServesAdmitted acl old s)
    (hr : Replied now s s' P) (hP : ∀ r, P r → Admits acl r.mac) : ServesAdmitted acl old s' where
  cached := hr.all h.cached fun r hr => hP r hr
  sent := by
    rcases hr.reply with ⟨hsent, -⟩ | ⟨k, hk, hsent, -⟩
    · rw [hsent]
      exact h.sent
    · intro k' hk'
      rw [hsent, List.mem_append, List.mem_singleton] at hk'
      rcases hk' with hk' | rfl
      · exact h.sent k' hk'
      · exact hP _ hk
  leases := by
    rw [hr.leases]
    exact h.leases

theorem ServesAdmitted.setAllocator (h : ServesAdmitted acl old s) (a : AddressAllocator) :
    ServesAdmitted acl old (s.setAllocator a) :=
  ⟨h.cached, h.sent, h.leases⟩

theorem ServesAdmitted.setLeases {l : LeaseStore} (h : ServesAdmitted acl old s)
    (hl : ∀ n, ∀ r ∈ l n, r ∈ s.leases n ∨ Admits acl r.clientMacAddress) :
    ServesAdmitted acl old (s.setLeases l) where
  cached := h.cached
  sent := h.sent
  leases n r hr := by
    rcases hl n r hr with hr | hadm
    · exact h.leases n r hr
    · exact .inr hadm

/-- Handling the message of an admitted client, by its effects. -/
theorem ServesAdmitted.effect (h : ServesAdmitted acl old s) (hm : Admits acl m.mac)
    (heff : Effect env s m s') : ServesAdmitted acl old s' := by
  have hreply {a cached wire : UInt32} (r : Message) (hr : ReplyOf m a cached wire r) :
      Admits acl r.mac := by
    rw [hr.mac]
    exact hm
  cases heff with
  | ignored => exact h
  | offered _ _ _ hr =>
    exact (h.setAllocator _).replied hr fun r (hr : OfferOf m _ r) => hreply r hr.toReplyOf
  | refused _ hr | informed _ hr | notRenewed _ _ _ hr => exact h.replied hr hreply
  | committed _ _ hc hr =>
    refine (h.setLeases ?_).replied hr hreply
    intro n r hmem
    rcases mem_leaseAdd hmem with hmem | ⟨-, rfl⟩
    · exact .inl hmem
    · rw [hc.record.2.1]
      exact .inr hm
  | renewed _ _ hf hmac hr =>
    refine (h.setLeases ?_).replied hr hreply
    intro n r hmem
    rcases mem_renewedLeases hmem with hmem | ⟨-, rfl⟩
    · exact .inl hmem
    · rw [← hmac] at hm
      exact .inr hm
  | released _ _ _ =>
    exact (h.setLeases fun n r hr => .inl (mem_leaseRemove hr)).setAllocator _
  | declined _ _ _ => exact h.setAllocator _

theorem ServesAdmitted.updateTimers (h : ServesAdmitted acl old s) (env : Env) :
    ServesAdmitted acl old (updateTimers env s) where
  cached := by
    rw [updateTimers_transCache]
    exact update_all h.cached
  sent := by
    rw [updateTimers_sent]
    exact h.sent
  leases n r hr := h.leases n r (updateTimers_subset hr)

theorem ServesAdmitted.serve {e : Event} (h : ServesAdmitted s.acl old s)
    (hs : s.transCache.Sound) (hserve : serve s e = .ok s') : ServesAdmitted s.acl old s' := by
  have htick := h.updateTimers e.env
  rcases serve_cases hs hserve with ⟨-, hr, hc⟩ | ⟨m, s₂, rv, hm, hd⟩
  · refine ⟨?_, ?_, ?_⟩
    · rw [hc]
      exact htick.cached
    · rw [hr.sent]
      exact htick.sent
    · rw [hr.leases]
      exact htick.leases
  · have hacc := handled_accepts hs hm
    have hadm := handled_admits hm
    have hheld : ServesAdmitted s.acl old s₂ := by
      refine ⟨hacc.adds.all htick.cached hadm, ?_, ?_⟩
      · rw [hacc.sent]
        exact htick.sent
      · rw [hacc.leases]
        exact htick.leases
    exact hheld.effect hadm
      (dispatch_effect (hacc.adds.sound (update_cache_sound _ hs)) hd)

/-- A start keeps nothing but records of the files. -/
theorem ServesAdmitted.startup (cfg : Config) {files : LeaseStore} (now : UInt32)
    (h : ∀ n, ∀ r ∈ files n, r ∈ old n ∨ Admits acl r.clientMacAddress) :
    ServesAdmitted acl old (startup cfg files now) where
  cached := startup_all cfg files now _
  sent := nofun
  leases n r hr := h n r (startup_subset hr)

end Admission

/-- Over any passes and restarts, the clients that the static list does not admit get nothing:
neither an answer nor a lease nor room in the cache. -/
theorem static_acl_enforced {cfg : Config} {h₀ h : Host} {es : List HostEvent}
    (hstart : ∃ files, h₀.server = startup cfg files h₀.clock)
    (hrun : es.foldlM (Host.step cfg) h₀ = .ok h) :
    ServesAdmitted cfg.acl h₀.server.leases h.server := by
  have hinv : h.server.transCache.Sound ∧ h.server.acl = cfg.acl ∧
      ServesAdmitted cfg.acl h₀.server.leases h.server := by
    have hreach : Reachable (Host.step cfg) (fun _ _ => True) (· = h₀) h :=
      .of_foldlM (fun _ _ => trivial) (.start rfl) hrun
    apply hreach.invariant (P := fun h => h.server.transCache.Sound ∧ h.server.acl = cfg.acl ∧
      ServesAdmitted cfg.acl h₀.server.leases h.server)
    · rintro h rfl
      obtain ⟨files, hfiles⟩ := hstart
      refine ⟨?_, ?_, ?_, ?_, fun _ _ => .inl⟩
      · rw [hfiles]
        exact startup_sound cfg files _
      · rw [hfiles]
        rfl
      · rw [hfiles]
        exact startup_all cfg files _ _
      · rw [hfiles]
        exact nofun
    · intro h e h' ⟨hs, hacl, hin⟩ _ hstep
      refine ⟨Host.step_sound hs hstep, ?_⟩
      cases e with
      | restart now =>
        cases hstep
        exact ⟨rfl, .startup cfg now hin.leases⟩
      | pass a =>
        obtain ⟨s, hserve, hstep⟩ := seq_ok.mp hstep
        cases hstep
        refine ⟨(serve_acl hserve).trans hacl, ?_⟩
        rw [← hacl] at hin ⊢
        exact hin.serve hs hserve
  exact hinv.2.2

/-- The small network with the client 02:00:00:00:00:01 on a blacklist. -/
def guardedNetwork : Config :=
  { smallNetwork with acl := ⟨["02:00:00:00:00:01".toList], true, true⟩ }

/-- The blacklisted client sends a DISCOVER, and another one gets a lease. -/
def guardedPasses : List HostEvent :=
  [.pass (discoverBy 1000 7 1), .pass (discoverBy 1001 8 2), .pass (requestBy 1002 8 2 1)]

theorem static_acl_guards :
    ∃ h, guardedPasses.foldlM (Host.step guardedNetwork)
        ⟨startup guardedNetwork (fun _ => []) 1000, 1000⟩ = .ok h ∧ h.server.sent.length = 2 ∧
      ServesAdmitted guardedNetwork.acl (fun _ => []) h.server := by
  have hrun : (guardedPasses.foldlM (Host.step guardedNetwork)
      ⟨startup guardedNetwork (fun _ => []) 1000, 1000⟩).toOption.any (fun h =>
        h.server.sent.length == 2) = true := by
    decide +kernel
  obtain ⟨h, hrun, hsent⟩ := exists_ok_of_any hrun
  exact ⟨h, hrun, beq_iff_eq.mp hsent, static_acl_enforced ⟨fun _ => [], rfl⟩ hrun⟩

end DHCPServer
