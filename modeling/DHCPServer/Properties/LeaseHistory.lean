import DHCPServer.Server.Host

namespace DHCPServer

/-- Two records of one lease differ at most in the time for which it runs. -/
def SameLease (r r' : LeaseRecord) : Prop :=
  r' = { r with leaseStart := r'.leaseStart, leaseExpire := r'.leaseExpire }

/-- The REQUEST that the pass `a` handles makes the server write the new record `r` into a file. -/
def CommitsAt (s : Server) (a : Event) (n : CString) (r : LeaseRecord) : Prop :=
  ∃ m s₂ p, handled s a = some (m, s₂) ∧ CommitsRecord a.env s₂ m p r ∧ p.name = n

/-- The REQUEST that the pass `a` handles makes the server write `r` for the record it renews. -/
def RenewsAt (s : Server) (a : Event) (n : CString) (r : LeaseRecord) : Prop :=
  ∃ m s₂ p r₀, handled s a = some (m, s₂) ∧ RenewsRecord s₂ m p r₀ ∧ p.name = n ∧
    a.env.extends = true ∧ r = r₀.extend a.env.now (configuredLeaseTime s₂.allocator p)

/-- The event `k` of the run is the pass `a`, and `s` is the server before it. -/
structure PassAt (cfg : Config) (h₀ : Host) (es : List HostEvent) (k : Nat) (s : Server)
    (a : Event) : Prop where
  event : es[k]? = some (.pass a)
  server : ∃ clock, (es.take k).foldlM (Host.step cfg) h₀ = .ok ⟨s, clock⟩

/-- The record `r₀` is in the file when `k` events have passed: it has been there from the start, or
the last of these events commits it. -/
def BegunAt (cfg : Config) (h₀ : Host) (es : List HostEvent) (n : CString) (r₀ : LeaseRecord)
    (k : Nat) : Prop :=
  (k = 0 ∧ r₀ ∈ h₀.server.leases n) ∨
    ∃ i s a, k = i + 1 ∧ PassAt cfg h₀ es i s a ∧ CommitsAt s a n r₀

section History

variable {cfg : Config} {h₀ h : Host} {es : List HostEvent} {e : HostEvent} {n : CString}
  {r r₀ : LeaseRecord} {k : Nat} {s : Server} {a : Event}

theorem sameLease_extend (r : LeaseRecord) (now t : UInt32) : SameLease r (r.extend now t) := rfl

theorem SameLease.trans {r₁ r₂ r₃ : LeaseRecord} (h₁ : SameLease r₁ r₂) (h₂ : SameLease r₂ r₃) :
    SameLease r₁ r₃ := by
  rw [SameLease, h₂, h₁]

theorem SameLease.address {r r' : LeaseRecord} (h : SameLease r r') : r'.address = r.address := by
  rw [h]

theorem PassAt.lt (h : PassAt cfg h₀ es k s a) : k < es.length :=
  (List.getElem?_eq_some_iff.mp h.event).1

/-- The events of a run are those of a longer one. -/
theorem PassAt.concat (h : PassAt cfg h₀ es k s a) : PassAt cfg h₀ (es ++ [e]) k s a where
  event := by rw [List.getElem?_append_left h.lt, h.event]
  server := by
    rw [List.take_append_of_le_length h.lt.le]
    exact h.server

theorem passAt_last (hrun : es.foldlM (Host.step cfg) h₀ = .ok h) :
    PassAt cfg h₀ (es ++ [.pass a]) es.length h.server a where
  event := List.getElem?_concat_length
  server := ⟨h.clock, by rw [List.take_left, hrun]⟩

theorem BegunAt.le (h : BegunAt cfg h₀ es n r₀ k) : k ≤ es.length := by
  rcases h with ⟨rfl, -⟩ | ⟨i, s, a, rfl, hat, -⟩
  · exact Nat.zero_le _
  · exact hat.lt

theorem BegunAt.concat (h : BegunAt cfg h₀ es n r₀ k) : BegunAt cfg h₀ (es ++ [e]) n r₀ k :=
  h.imp id fun ⟨i, s, a, hk, hat, hc⟩ => ⟨i, s, a, hk, hat.concat, hc⟩

theorem Host.run_sound (hs : h₀.server.transCache.Sound)
    (hrun : es.foldlM (Host.step cfg) h₀ = .ok h) : h.server.transCache.Sound := by
  have hreach : Reachable (Host.step cfg) (fun _ _ => True) (· = h₀) h :=
    .of_foldlM (fun _ _ => trivial) (.start rfl) hrun
  apply hreach.invariant (P := fun h => h.server.transCache.Sound)
  · intro h hh
    exact hh ▸ hs
  · exact fun h e h' hs _ hstep => Host.step_sound hs hstep

/-- The records after a step that were not in the file before: the committed one, and the renewed
one. -/
theorem LeaseStep.record_cases {env : Env} {m : Message} {l : LeaseStore}
    (h : LeaseStep env s m l) (hr : r ∈ l n) :
    r ∈ s.leases n ∨ (∃ p, CommitsRecord env s m p r ∧ p.name = n) ∨
      ∃ p r₀, RenewsRecord s m p r₀ ∧ p.name = n ∧ env.extends = true ∧
        r = r₀.extend env.now (configuredLeaseTime s.allocator p) := by
  cases h with
  | same => exact .inl hr
  | commit hc =>
    rcases mem_leaseAdd hr with hr | ⟨rfl, rfl⟩
    · exact .inl hr
    · exact .inr (.inl ⟨_, hc, rfl⟩)
  | renew hren =>
    cases hw : env.extends with
    | false =>
      rw [renewedLeases, hw] at hr
      exact .inl (mem_leaseRemove hr)
    | true =>
      rcases mem_renewedLeases hr with hr | ⟨rfl, rfl⟩
      · exact .inl hr
      · exact .inr (.inr ⟨_, _, hren, rfl, rfl, rfl⟩)
  | release _ _ => exact .inl (mem_leaseRemove hr)

end History

/-- Through any passes and restarts, every record that is found in a lease file goes back to one
that was there at the start or that a REQUEST of its client has committed. It differs from it
only if a later REQUEST of the same client has renewed it: then it runs from that pass for the
configured lease time. -/
theorem lease_record_history {cfg : Config} {h₀ h : Host} {es : List HostEvent} {n : CString}
    {r : LeaseRecord} (hstart : ∃ files, h₀.server = startup cfg files h₀.clock)
    (hrun : es.foldlM (Host.step cfg) h₀ = .ok h) (hr : r ∈ h.server.leases n) :
    ∃ r₀ k, BegunAt cfg h₀ es n r₀ k ∧ SameLease r₀ r ∧
      (r = r₀ ∨ ∃ i s a, k ≤ i ∧ PassAt cfg h₀ es i s a ∧ RenewsAt s a n r) := by
  have hs : h₀.server.transCache.Sound := by
    obtain ⟨files, hfiles⟩ := hstart
    rw [hfiles]
    exact startup_sound cfg files _
  induction es using List.reverseRecOn generalizing h r with
  | nil =>
    cases hrun
    exact ⟨r, 0, .inl ⟨rfl, hr⟩, rfl, .inl rfl⟩
  | append_singleton es e ih =>
    rw [List.foldlM_append] at hrun
    obtain ⟨h₁, hfirst, hlast⟩ := seq_ok.mp hrun
    have hstep : h₁.step cfg e = .ok h := by simpa using hlast
    -- what was in the file before has a history already
    have hold : r ∈ h₁.server.leases n → ∃ r₀ k, BegunAt cfg h₀ (es ++ [e]) n r₀ k ∧
        SameLease r₀ r ∧ (r = r₀ ∨ ∃ i s a, k ≤ i ∧ PassAt cfg h₀ (es ++ [e]) i s a ∧
          RenewsAt s a n r) := by
      intro hr
      obtain ⟨r₀, k, hbegun, hsame, hlast⟩ := ih hfirst hr
      refine ⟨r₀, k, hbegun.concat, hsame, hlast.imp id ?_⟩
      exact fun ⟨i, s, a, hi, hat, hren⟩ => ⟨i, s, a, hi, hat.concat, hren⟩
    rcases Host.step_cases (Host.run_sound hs hfirst) hstep with
      ⟨now, rfl, rfl⟩ | ⟨a, rfl, -, -, ⟨-, hleases⟩ | ⟨m, s, hm, hrec, hleases⟩⟩
    · exact hold (startup_subset hr)
    · rw [hleases] at hr
      exact hold (updateTimers_subset hr)
    · rcases hleases.record_cases hr with hr | ⟨p, hc, hname⟩ | ⟨p, r₁, hren, rfl, hw, rfl⟩
      · rw [hrec.leases] at hr
        exact hold (updateTimers_subset hr)
      · exact ⟨r, es.length + 1,
          .inr ⟨_, _, a, rfl, passAt_last hfirst, m, s, p, hm, hc, hname⟩, rfl, .inl rfl⟩
      · have hr₁ : r₁ ∈ h₁.server.leases p.name := by
          have hmem := hren.first.mem
          rw [hrec.leases] at hmem
          exact updateTimers_subset hmem
        obtain ⟨r₀, k, hbegun, hsame, -⟩ := ih hfirst hr₁
        refine ⟨r₀, k, hbegun.concat, hsame.trans (sameLease_extend _ _ _), .inr ?_⟩
        exact ⟨_, _, a, hbegun.le, passAt_last hfirst, m, s, p, r₁, hm, hren, rfl, hw, rfl⟩

/-- A client gets a lease, the server is started again, and the client renews its lease. -/
def renewedAfterRestart : List HostEvent :=
  [.pass (discoverBy 1000 7 1), .pass (requestBy 1001 7 1 1), .restart 1010,
    .pass (renewBy 1020 8 0x0a000001 1)]

theorem renewed_record_history :
    ∃ h r, renewedAfterRestart.foldlM (Host.step smallNetwork) ⟨smallServer, 1000⟩ = .ok h ∧
      r ∈ h.server.leases ['a'] ∧ r.leaseExpire = 4620 ∧
      ∃ r₀ k, BegunAt smallNetwork ⟨smallServer, 1000⟩ renewedAfterRestart ['a'] r₀ k ∧
        SameLease r₀ r ∧ (r = r₀ ∨ ∃ i s a, k ≤ i ∧
          PassAt smallNetwork ⟨smallServer, 1000⟩ renewedAfterRestart i s a ∧
          RenewsAt s a ['a'] r) := by
  have hrun : (renewedAfterRestart.foldlM (Host.step smallNetwork)
      ⟨smallServer, 1000⟩).toOption.any (fun h =>
        (h.server.leases ['a']).any (·.leaseExpire == 4620)) = true := by decide +kernel
  obtain ⟨h, hrun, hrec⟩ := exists_ok_of_any hrun
  obtain ⟨r, hr, hexp⟩ := List.any_eq_true.mp hrec
  exact ⟨h, r, hrun, hr, by simpa using hexp,
    lease_record_history ⟨_, rfl⟩ hrun hr⟩

end DHCPServer
