import DHCPServer.Properties.Lookups
import DHCPServer.Server.Delivery

namespace DHCPServer

/-- Every pool has the bitmap and the number of available addresses it had. -/
def SameBitmaps (a a' : AddressAllocator) : Prop :=
  a'.addressPools.map (fun p => (p.leasesBm, p.availableAddresses)) =
    a.addressPools.map fun p => (p.leasesBm, p.availableAddresses)

instance (a a' : AddressAllocator) : Decidable (SameBitmaps a a') := inferInstanceAs (Decidable (_ = _))

section Discover

variable {env : Env} {s s' : Server} {m : Message} {a a' : AddressAllocator} {x : UInt32}

/-- Taking an address shows in the count of its pool. -/
theorem Grants.not_sameBitmaps {pre post : List AddressPool} {p : AddressPool}
    (h : a.Grants a' pre p post x) : ¬SameBitmaps a a' := by
  intro hsame
  have hafter : a'.addressPools = pre ++ p.mark x :: post := by
    rw [h.after]
    rfl
  rw [SameBitmaps, h.before, hafter, List.map_append, List.map_append, List.append_cancel_left_eq,
    List.map_cons, List.map_cons, List.cons_eq_cons, Prod.mk.injEq] at hsame
  have hcount : (p.availableAddresses - 1).toNat = p.availableAddresses.toNat :=
    congrArg UInt32.toNat hsame.1.2
  rw [UInt32.toNat_sub] at hcount
  have hlt := p.availableAddresses.toNat_lt
  simp only [UInt32.reduceToNat] at hcount
  omega

/-- A DISCOVER touches the allocator where it takes an address, and nowhere else. -/
theorem discover_allocator {rv : Int} (h : messageDhcpdiscoverHandle env s m = .ok (rv, s')) :
    s'.allocator = (obtainAddress s.allocator m).2 := by
  unfold messageDhcpdiscoverHandle at h
  dsimp only at h
  split at h
  · cases h
    rfl
  split at h
  · cases h
    rfl
  obtain ⟨⟨ok, s₁⟩, hbuild, h⟩ := seq_ok.mp h
  cases h
  exact (offerBuild_delivers (P := fun _ => True) hbuild fun _ _ => trivial).allocator

end Discover

/-- A DISCOVER that fails leaves every pool as it was exactly when no address could be taken for
it. -/
theorem failed_discover_keeps_bitmaps_iff {env : Env} {s s' : Server} {m : Message}
    (h : messageDhcpdiscoverHandle env s m = .ok (-1, s')) :
    SameBitmaps s.allocator s'.allocator ↔ NoAddressFor s.allocator m := by
  rw [discover_allocator h]
  constructor
  · intro hsame
    rcases obtainAddress_cases s.allocator m with ⟨-, hnone⟩ | ⟨x, a', pre, p, post, heq, -, hg⟩
    · exact hnone
    · rw [heq] at hsame
      exact absurd hsame (Grants.not_sameBitmaps hg)
  · intro hnone
    rcases obtainAddress_cases s.allocator m with ⟨heq, -⟩ | ⟨x, a', pre, p, post, heq, hx, -⟩
    · rw [heq]
      exact rfl
    · have hzero := obtainAddress_of_noAddress hnone
      rw [heq] at hzero
      exact absurd hzero hx

/-- The addresses 10.0.0.1 to 10.0.0.3 are all leased. -/
def fullServer : Server :=
  startup smallNetwork (fun n => if n = ['a'] then
    [⟨0x0a000001, 0xffffff00, 1, 1000, 4600, 0, Buffer.zero 6⟩,
      ⟨0x0a000002, 0xffffff00, 2, 1000, 4600, 0, Buffer.zero 6⟩,
      ⟨0x0a000003, 0xffffff00, 3, 1000, 4600, 0, Buffer.zero 6⟩] else []) 1000

theorem fullServer_keeps_bitmaps : ∃ m s₂ s',
    handled fullServer (discoverBy 1001 7 1) = some (m, s₂) ∧
    messageDhcpdiscoverHandle (discoverBy 1001 7 1).env s₂ m = .ok (-1, s') ∧
    SameBitmaps s₂.allocator s'.allocator := by
  have hany : (handled fullServer (discoverBy 1001 7 1)).any (fun r =>
      (r.1.option Tag.requestedIpAddress).isNone &&
      r.2.allocator.addressPools.all (fun q => q.availableAddresses == 0) &&
      (messageDhcpdiscoverHandle (discoverBy 1001 7 1).env r.2 r.1).toOption.any fun x =>
        x.1 == -1) = true := by decide +kernel
  obtain ⟨⟨m, s₂⟩, hm, hq⟩ := (Option.any_eq_true _ _).mp hany
  simp only [Bool.and_eq_true, List.all_eq_true, beq_iff_eq, Option.isNone_iff_eq_none] at hq
  obtain ⟨⟨h50, hempty⟩, hrun⟩ := hq
  obtain ⟨⟨rv, s'⟩, hhandle, hrv⟩ := exists_ok_of_any hrun
  obtain rfl : rv = -1 := by simpa using hrv
  refine ⟨m, s₂, s', hm, hhandle, (failed_discover_keeps_bitmaps_iff hhandle).mpr ⟨?_, ?_⟩⟩
  · exact fun q hq => .inl (hempty q hq)
  · intro o50 ho
    rw [h50] at ho
    cases ho

/-- A client that asks for a lease of no time at all. -/
def discoverForNoTime : Event :=
  receives 1001 (clientPacket 7 0 [2, 0, 0, 0, 0, 1] [53, 1, 1, 51, 4, 0, 0, 0, 0, 55, 1, 1, 255])

/-- The address taken for this DISCOVER stays taken, although no OFFER is made. -/
theorem failed_discover_takes_address :
    ¬∀ env s m s', messageDhcpdiscoverHandle env s m = .ok (-1, s') →
      SameBitmaps s.allocator s'.allocator := by
  intro h
  have hany : (handled smallServer discoverForNoTime).any (fun r =>
      (messageDhcpdiscoverHandle discoverForNoTime.env r.2 r.1).toOption.any fun x =>
        x.1 == -1 && !decide (SameBitmaps r.2.allocator x.2.allocator)) = true := by
    decide +kernel
  obtain ⟨⟨m, s₂⟩, -, hrun⟩ := (Option.any_eq_true _ _).mp hany
  obtain ⟨⟨rv, s'⟩, hs', hq⟩ := exists_ok_of_any hrun
  simp only [Bool.and_eq_true, beq_iff_eq, Bool.not_eq_true', decide_eq_false_iff_not] at hq
  obtain ⟨rfl, hdiffers⟩ := hq
  exact hdiffers (h _ _ _ _ hs')

end DHCPServer
