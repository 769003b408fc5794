import DHCPServer.Server.Startup

namespace DHCPServer

/-- The records of a file that belong to other clients. -/
def otherLeases (mac : Mac) (l : List LeaseRecord) : List LeaseRecord :=
  l.filter (·.clientMacAddress != mac)

/-- Going from `s` to `s'` leaves the records of other clients and the allocation of their
addresses alone. -/
structure Isolates (mac : Mac) (s s' : Server) : Prop where
  records : ∀ n, otherLeases mac (s'.leases n) = otherLeases mac (s.leases n)
  allocated : ∀ p ∈ s.allocator.addressPools, ∀ r ∈ s.leases p.name, r.clientMacAddress ≠ mac →
    s.allocator.isAllocated r.address = true → s'.allocator.isAllocated r.address = true

/-- `lease_remove` leaves the file of the pool `p` empty, in which other clients had records. -/
def EmptiesOther (env : Env) (s : Server) (m : Message) (p : AddressPool) : Prop :=
  env.rewrite = .notWritten ∧ ∃ r ∈ s.leases p.name, r.clientMacAddress ≠ m.mac

/-- A RELEASE of an address whose first record belongs to another client, or which is allocated
and has a record of another client; or a RELEASE or a renewal for which a file with records
of other clients is cut and not written. -/
def TakesFromOther (env : Env) (s : Server) (m : Message) : Prop :=
  ∃ p r, FirstRecord s m.ciaddr p r ∧
    ((m.type = MsgType.release ∧ ((env.rewrite = .done ∧ r.clientMacAddress ≠ m.mac) ∨
        EmptiesOther env s m p ∨
        (env.rewrite ≠ .notOpened ∧ s.allocator.isAllocated m.ciaddr = true ∧
          ∃ q ∈ s.allocator.addressPools, ∃ r' ∈ s.leases q.name,
            r'.address = m.ciaddr ∧ r'.clientMacAddress ≠ m.mac))) ∨
      (m.type = MsgType.request ∧ m.option Tag.serverIdentifier = none ∧
        r.clientMacAddress = m.mac ∧ EmptiesOther env s m p))

section Files

variable {mac : Mac} {store : LeaseStore} {name : CString} {a : UInt32} {r : LeaseRecord}

theorem otherLeases_add {written : Bool} {l : Lease} (h : l.record.clientMacAddress = mac)
    (n : CString) : otherLeases mac ((leaseAdd written store l).2 n) = otherLeases mac (store n) := by
  cases written with
  | false => rfl
  | true =>
    simp only [leaseAdd, if_true, LeaseStore.set]
    split
    · rename_i hn
      simp [otherLeases, List.filter_append, h, hn]
    · rfl

/-- A removal leaves the records of other clients alone if the record taken out is the client's,
and so is every record of a file that is left empty. -/
theorem otherLeases_remove {rewrite : Rewrite}
    (hr : (store name).find? (·.address == a) = some r)
    (hown : rewrite = .done → r.clientMacAddress = mac)
    (hempty : rewrite = .notWritten → ∀ r' ∈ store name, r'.clientMacAddress = mac) (n : CString) :
    otherLeases mac ((leaseRemove rewrite store a name).2 n) = otherLeases mac (store n) := by
  by_cases hn : n = name
  · subst hn
    cases rewrite with
    | done =>
      obtain ⟨pre, post, hsplit, herase⟩ := find?_split hr
      rw [leaseRemove_same, herase, hsplit]
      simp [otherLeases, List.filter_append, hown rfl]
    | notOpened | notTruncated => rfl
    | notWritten =>
      have hnone : otherLeases mac (store n) = [] := by
        rw [otherLeases, List.filter_eq_nil_iff]
        simpa using hempty rfl
      rw [hnone, leaseRemove_notWritten]
      rfl
  · rw [leaseRemove_other _ hn]

theorem otherLeases_remove_other (hr : (store name).find? (·.address == a) = some r)
    (hmac : r.clientMacAddress ≠ mac) :
    otherLeases mac ((leaseRemove .done store a name).2 name) ≠ otherLeases mac (store name) := by
  obtain ⟨pre, post, hsplit, herase⟩ := find?_split hr
  intro heq
  have hlen := congrArg List.length heq
  rw [leaseRemove_same, herase, hsplit] at hlen
  simp [otherLeases, List.filter_append, hmac] at hlen

/-- A file that is left empty or with records of the client only has lost those of others. -/
theorem otherLeases_lost {l : List LeaseRecord} (hl : ∀ r ∈ l, r.clientMacAddress = mac)
    (hr : r ∈ store name) (hmac : r.clientMacAddress ≠ mac) :
    otherLeases mac l ≠ otherLeases mac (store name) := by
  intro heq
  have hmem : r ∈ otherLeases mac l := by
    rw [heq]
    exact List.mem_filter.mpr ⟨hr, by simpa using hmac⟩
  exact hmac (hl r (List.mem_filter.mp hmem).1)

end Files

section Handling

variable {env : Env} {s s' : Server} {m : Message}

theorem isolates_of_leases (hl : s'.leases = s.leases)
    (ha : ∀ x, s.allocator.isAllocated x = true → s'.allocator.isAllocated x = true) :
    Isolates m.mac s s' :=
  ⟨fun n => by rw [hl], fun _ _ r _ _ h => ha r.address h⟩

theorem isolates_of_allocator (ha : s'.allocator = s.allocator)
    (hl : ∀ n, otherLeases m.mac (s'.leases n) = otherLeases m.mac (s.leases n)) :
    Isolates m.mac s s' :=
  ⟨hl, fun _ _ _ _ _ h => by rwa [ha]⟩

theorem Replied.isolates {P : Message → Prop} (h : Replied env.now s s' P) :
    Isolates m.mac s s' :=
  isolates_of_leases h.leases fun x hx => by rwa [h.allocator]

/-- No message other than a RELEASE touches what belongs to other clients, unless a renewal empties
a file. -/
theorem Effect.isolates (h : Effect env s m s') (ht : m.type ≠ MsgType.release)
    (hno : ¬TakesFromOther env s m) : Isolates m.mac s s' := by
  cases h with
  | ignored => exact isolates_of_leases rfl fun _ hx => hx
  | offered _ _ hg hr =>
    refine isolates_of_leases hr.leases fun x hx => ?_
    rw [hr.allocator]
    exact hg.isAllocated_mono hx
  | refused _ hr | informed _ hr | notRenewed _ _ _ hr => exact hr.isolates
  | committed _ _ hc hr =>
    refine isolates_of_allocator hr.allocator fun n => ?_
    rw [hr.leases, Server.setLeases_leases]
    exact otherLeases_add hc.record.2.1 n
  | renewed hreq h54 hf hmac hr =>
    refine isolates_of_allocator hr.allocator fun n => ?_
    rw [hr.leases]
    refine (otherLeases_add hmac n).trans ?_
    rw [hf.address]
    refine otherLeases_remove hf.first (fun _ => hmac) (fun hw r' hr' => ?_) n
    by_contra hne
    exact hno ⟨_, _, hf, .inr ⟨hreq, h54, hmac, hw, r', hr', hne⟩⟩
  | released hrel _ _ => exact absurd hrel ht
  | declined _ _ _ =>
    exact isolates_of_leases rfl fun x hx => AddressAllocator.requestThis_mono _ _ hx

theorem release_isolates (ht : m.type = MsgType.release) (hno : ¬TakesFromOther env s m) :
    Isolates m.mac s (messageDhcpreleaseHandle env s m).2 := by
  rcases release_handle_cases env s m with ⟨heq, -⟩ | ⟨p, r, hf, hopen, heq⟩
  · rw [heq]
    exact isolates_of_leases rfl fun _ hx => hx
  rw [heq]
  refine ⟨fun n => ?_, ?_⟩
  · refine otherLeases_remove hf.first (fun hdone => ?_) (fun hw r' hr' => ?_) n
    · by_contra hne
      exact hno ⟨p, r, hf, .inl ⟨ht, .inl ⟨hdone, hne⟩⟩⟩
    · by_contra hne
      exact hno ⟨p, r, hf, .inl ⟨ht, .inr (.inl ⟨hw, r', hr', hne⟩)⟩⟩
  · intro q hq r' hr' hmac' hx
    have hne : r'.address ≠ m.ciaddr := by
      intro heq
      exact hno ⟨p, r, hf, .inl ⟨ht, .inr (.inr ⟨hopen, heq ▸ hx, q, hq, r', hr', heq, hmac'⟩)⟩⟩
    rw [Server.setAllocator_allocator, AddressAllocator.release_isAllocated]
    simp [hx, hne]

theorem release_takes {p : AddressPool} {r : LeaseRecord} (hf : FirstRecord s m.ciaddr p r)
    (hopen : env.rewrite ≠ .notOpened) : (messageDhcpreleaseHandle env s m).2 =
      (s.setLeases (leaseRemove env.rewrite s.leases m.ciaddr p.name).2).setAllocator
        (allocatorReleaseAddress s.allocator m.ciaddr).2 := by
  rcases release_handle_cases env s m with ⟨-, h | hno⟩ | ⟨p', r', hf', -, heq⟩
  · exact absurd h hopen
  · exact absurd ⟨p, r, hf⟩ hno
  · obtain rfl : p = p' := Option.some.inj (hf.pool.symm.trans hf'.pool)
    exact heq

theorem dispatch_release (ht : m.type = MsgType.release) :
    dispatch env s m = .ok (messageDhcpreleaseHandle env s m) := by
  unfold dispatch
  rw [ht]
  rfl

/-- A message that takes from others does not isolate them. -/
theorem TakesFromOther.not_isolates (h : TakesFromOther env s m) (hs : s.transCache.Sound)
    {rv : Int} (hd : dispatch env s m = .ok (rv, s')) : ¬Isolates m.mac s s' := by
  obtain ⟨p, r, hf, ⟨ht, hrel⟩ | ⟨ht, h54, hmac, hw, r', hr', hne⟩⟩ := h
  · rw [dispatch_release ht] at hd
    have hs' : (messageDhcpreleaseHandle env s m).2 = s' := congrArg Prod.snd (Except.ok.inj hd)
    rintro ⟨hrecs, halloc⟩
    rcases hrel with ⟨hdone, hmac⟩ | ⟨hw, r', hr', hne⟩ | ⟨hopen, hx, q, hq, r', hr', haddr, hne⟩
    · rw [release_takes hf (by rw [hdone]; decide), hdone] at hs'
      exact otherLeases_remove_other hf.first hmac (by rw [← hrecs p.name, ← hs']; rfl)
    · rw [release_takes hf (by rw [hw]; decide), hw] at hs'
      refine otherLeases_lost (l := s'.leases p.name) ?_ hr' hne (hrecs p.name)
      rw [← hs', Server.setAllocator_leases, Server.setLeases_leases, leaseRemove_notWritten]
      simp
    · rw [release_takes hf hopen] at hs'
      have hafter := halloc q hq r' hr' hne (haddr ▸ hx)
      rw [haddr, ← hs', Server.setAllocator_allocator, AddressAllocator.release_isAllocated] at hafter
      simp at hafter
  · obtain ⟨hl, -⟩ := renewal_dispatch hs ht h54 hf hmac hd
    intro hiso
    refine otherLeases_lost (l := s'.leases p.name) ?_ hr' hne (hiso.records p.name)
    intro r₂ hr₂
    rw [hl, renewedLeases, hf.address, hw] at hr₂
    rcases mem_leaseAdd hr₂ with hr₂ | ⟨-, rfl⟩
    · rw [leaseRemove_notWritten] at hr₂
      cases hr₂
    · exact hmac

end Handling

/-- In every reachable state, a message leaves the leases of other clients alone unless it is a
RELEASE of an address that another client has a record of, or a file is emptied. -/
theorem handling_isolates_clients_iff {s s₂ s' : Server} {e : Event} {m : Message} {rv : Int}
    (hs : Reachable serve PassCondition.always.Holds Started s)
    (hm : handled s e = some (m, s₂)) (hd : dispatch e.env s₂ m = .ok (rv, s')) :
    Isolates m.mac s₂ s' ↔ ¬TakesFromOther e.env s₂ m := by
  have hsound : s₂.transCache.Sound := (handled_accepts (reachable_sound hs) hm).adds.sound
    (update_cache_sound e.env (reachable_sound hs))
  constructor
  · exact fun hiso htakes => htakes.not_isolates hsound hd hiso
  · intro hno
    by_cases ht : m.type = MsgType.release
    · rw [dispatch_release ht] at hd
      have hs' : (messageDhcpreleaseHandle e.env s₂ m).2 = s' :=
        congrArg Prod.snd (Except.ok.inj hd)
      rw [← hs']
      exact release_isolates ht hno
    · exact (dispatch_effect hsound hd).isolates ht hno

/-- The client 02:00:00:00:00:02 releases 10.0.0.1. -/
def foreignRelease : Event :=
  receives 1001 (clientPacket 9 0x0a000001 [2, 0, 0, 0, 0, 2] [53, 1, 7, 255])

theorem foreignRelease_isolates_iff :
    ∃ m s₂ rv s', handled leasedServer foreignRelease = some (m, s₂) ∧
      dispatch foreignRelease.env s₂ m = .ok (rv, s') ∧
      (Isolates m.mac s₂ s' ↔ ¬TakesFromOther foreignRelease.env s₂ m) := by
  have hsome : (handled leasedServer foreignRelease).any
      (fun r => r.1.type == MsgType.release) = true := by decide +kernel
  obtain ⟨⟨m, s₂⟩, hm, ht⟩ := (Option.any_eq_true _ _).mp hsome
  have hd : dispatch foreignRelease.env s₂ m = .ok (messageDhcpreleaseHandle foreignRelease.env s₂ m) :=
    dispatch_release (by simpa using ht)
  exact ⟨m, s₂, _, _, hm, hd,
    handling_isolates_clients_iff (.start leasedServer_started) hm hd⟩

theorem foreign_release_removes_lease :
    ¬∀ s e m s₂ rv s', Reachable serve PassCondition.always.Holds Started s →
      handled s e = some (m, s₂) → dispatch e.env s₂ m = .ok (rv, s') → Isolates m.mac s₂ s' := by
  intro h
  have hany : (handled leasedServer foreignRelease).any
      (fun r => r.1.type == MsgType.release &&
        otherLeases r.1.mac ((messageDhcpreleaseHandle foreignRelease.env r.2 r.1).2.leases ['a']) !=
          otherLeases r.1.mac (r.2.leases ['a'])) = true := by decide +kernel
  obtain ⟨⟨m, s₂⟩, hm, hr⟩ := (Option.any_eq_true _ _).mp hany
  rw [Bool.and_eq_true, bne_iff_ne, beq_iff_eq] at hr
  have hiso := h _ foreignRelease m s₂ _ _ (.start leasedServer_started) hm
    (dispatch_release hr.1)
  exact hr.2 (hiso.records ['a'])

end DHCPServer
