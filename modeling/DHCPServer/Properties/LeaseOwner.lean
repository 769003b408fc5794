import DHCPServer.Server.Startup

namespace DHCPServer

/-- No address has lease records of two clients that both run at the time `now`. -/
def OneOwner (now : UInt32) (s : Server) : Prop :=
  ∀ n ∈ s.allocator.poolNames, ∀ n' ∈ s.allocator.poolNames, ∀ r ∈ s.leases n,
    ∀ r' ∈ s.leases n', r.address = r'.address → now < r.leaseExpire → now < r'.leaseExpire →
      r.clientMacAddress = r'.clientMacAddress

/-- All records of an address, expired or not, belong to one client. -/
def SameOwner (names : List CString) (store : LeaseStore) : Prop :=
  ∀ n ∈ names, ∀ n' ∈ names, ∀ r ∈ store n, ∀ r' ∈ store n', r.address = r'.address →
    r.clientMacAddress = r'.clientMacAddress

/-- A REQUEST whose lease is committed finds no record of another client for the address. -/
def commitsToOwner : PassCondition where
  tick := fun _ _ => True
  message := fun env s m => m.type = MsgType.request → ∀ o50 lease,
    m.option Tag.requestedIpAddress = some o50 → Commits env s m o50.ip lease →
      ∀ n ∈ s.allocator.poolNames, ∀ r ∈ s.leases n, r.address = o50.ip →
        r.clientMacAddress = m.mac

/-- The server is started on files in which an address has records of one client only. -/
def StartedWithOwners (s : Server) : Prop :=
  ∃ cfg files now, s = startup cfg files now ∧ SameOwner s.allocator.poolNames files

theorem SameOwner.subset {names : List CString} {store store' : LeaseStore}
    (h : SameOwner names store) (hsub : ∀ n, ∀ r ∈ store' n, r ∈ store n) :
    SameOwner names store' :=
  fun n hn n' hn' r hr r' hr' => h n hn n' hn' r (hsub n r hr) r' (hsub n' r' hr')

/-- What one handled message does to the owners of addresses. -/
theorem Effect.sameOwner {env : Env} {s s' : Server} {m : Message} (heff : Effect env s m s')
    (h : SameOwner s.allocator.poolNames s.leases) (hc : commitsToOwner.message env s m) :
    SameOwner s'.allocator.poolNames s'.leases := by
  rw [AddressAllocator.poolNames_of_shape heff.shape]
  intro n hn n' hn' r hr r' hr' haddr
  rcases heff.record_cases hr with ⟨r₀, hr₀, ha₀, hm₀⟩ | ⟨o50, lease, ht, h50, hcom, -, rfl⟩
  · rcases heff.record_cases hr' with ⟨r₁, hr₁, ha₁, hm₁⟩ | ⟨o50, lease, ht, h50, hcom, -, rfl⟩
    · rw [← hm₀, ← hm₁]
      exact h n hn n' hn' r₀ hr₀ r₁ hr₁ (by rw [ha₀, ha₁, haddr])
    · obtain ⟨hla, hlm, -⟩ := hcom.record
      rw [hlm, ← hm₀]
      exact hc ht o50 lease h50 hcom n hn r₀ hr₀ (by rw [ha₀, haddr, hla])
  · obtain ⟨hla, hlm, -⟩ := hcom.record
    rcases heff.record_cases hr' with ⟨r₁, hr₁, ha₁, hm₁⟩ | ⟨o50', lease', -, -, hcom', -, rfl⟩
    · rw [hlm, ← hm₁]
      exact (hc ht o50 lease h50 hcom n' hn' r₁ hr₁ (by rw [ha₁, ← haddr, hla])).symm
    · rw [hlm, hcom'.record.2.1]

/-- In every run in which leases are committed to their owners only, an address is leased to at
most one client at a time. -/
theorem address_leased_to_one_client {s : Server}
    (h : Reachable serve commitsToOwner.Holds StartedWithOwners s) (now : UInt32) :
    OneOwner now s := by
  have hinv : SameOwner s.allocator.poolNames s.leases := by
    refine (run_rule (P := fun s => SameOwner s.allocator.poolNames s.leases) ?_ ?_ ?_ ?_ ?_ h).2
    · intro s h
      obtain ⟨cfg, files, now, rfl, hf⟩ := h
      exact ⟨startup_sound cfg files now, hf.subset fun n r hr => startup_subset hr⟩
    · intro env s _ hP _
      rw [AddressAllocator.poolNames_of_shape (updateTimers_shape env s)]
      exact hP.subset fun n r hr => updateTimers_subset hr
    · intro s s' hP hr _
      rwa [hr.allocator, hr.leases]
    · intro env s m s' _ hP hacc _
      rwa [hacc.allocator, hacc.leases]
    · intro env s₀ s m s' rv _ _ hP hc _ heff
      exact heff.sameOwner hP hc
  intro n hn n' hn' r hr r' hr' haddr _ _
  exact hinv n hn n' hn' r hr r' hr' haddr

theorem startedWithOwners_small : StartedWithOwners smallServer := by
  refine ⟨smallNetwork, fun _ => [], 1000, rfl, ?_⟩
  intro n _ n' _ r hr
  cases hr

/-- A test for passes that meet the condition: a REQUEST comes from the owner of all records. -/
def requestsByOwner (s : Server) (e : Event) : Bool :=
  (handled s e).all fun r => r.2.allocator.poolNames.all fun n =>
    (r.2.leases n).all fun x => x.clientMacAddress == r.1.mac

theorem requestsByOwner_holds (s : Server) (e : Event) (h : requestsByOwner s e = true) :
    commitsToOwner.Holds s e := by
  refine ⟨trivial, ?_⟩
  intro m s₂ hm _ o50 lease _ _ n hn r hr _
  simp only [requestsByOwner, hm, Option.all_some, List.all_eq_true, beq_iff_eq] at h
  exact h n hn r hr

/-- A client is offered 10.0.0.1, requests it and requests it once more. -/
def repeatedRequest : List Event :=
  [discoverBy 1001 7 1, requestBy 1002 7 1 1, requestBy 1003 7 1 1]

theorem repeatedRequest_one_owner :
    ∃ s, Reachable serve commitsToOwner.Holds StartedWithOwners s ∧ (s.leases ['a']).length = 2 ∧
      OneOwner 1003 s := by
  have hrun : (repeatedRequest.foldlM (Reachable.checked serve requestsByOwner) smallServer).any
      (fun s => (s.leases ['a']).length == 2) = true := by decide +kernel
  obtain ⟨s, hs, hlen⟩ :=
    Reachable.of_run requestsByOwner_holds repeatedRequest startedWithOwners_small hrun
  exact ⟨s, hs, by simpa using hlen, address_leased_to_one_client hs 1003⟩

/-- The client 02:00:00:00:00:02 is offered 10.0.0.2 and requests 10.0.0.1. -/
def requestOfLeased : List Event := [discoverBy 1001 9 2, requestBy 1002 9 2 1]

theorem address_leased_to_two_clients :
    ¬∀ s now, Reachable serve PassCondition.always.Holds Started s → OneOwner now s := by
  intro h
  have hrun : (requestOfLeased.foldlM (Reachable.checked serve fun _ _ => true) leasedServer).any
      (fun s => s.allocator.poolNames.contains ['a'] && (s.leases ['a']).any fun r =>
        (s.leases ['a']).any fun r' => r.address == r'.address && decide (1002 < r.leaseExpire) &&
          decide (1002 < r'.leaseExpire) && r.clientMacAddress != r'.clientMacAddress) = true := by
    decide +kernel
  obtain ⟨s, hs, htest⟩ := Reachable.of_run (fun s e _ => PassCondition.always_holds s e)
    requestOfLeased leasedServer_started hrun
  simp only [Bool.and_eq_true, List.any_eq_true, List.contains_iff_mem, decide_eq_true_eq,
    beq_iff_eq, bne_iff_ne] at htest
  obtain ⟨hn, r, hr, r', hr', ⟨⟨haddr, hexp⟩, hexp'⟩, hmac⟩ := htest
  exact hmac (h s 1002 hs ['a'] hn ['a'] hn r hr r' hr' haddr hexp hexp')

end DHCPServer
