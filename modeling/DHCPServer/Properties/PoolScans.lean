import DHCPServer.Framework.Loop
import DHCPServer.Server.Serve

namespace DHCPServer

section Loops

variable (pool : AddressPool)

/-- The loop of `allocator_assign_first_from_pool` with its 32-bit variable. -/
def assignFirstLoop : UInt32 × Unit → Pass (UInt32 × Unit) (Reply × AddressPool) :=
  Loop.countPass (fun a => decide (a ≤ pool.endAddress))
    (fun a _ =>
      if pool.getAllocation a == 0 then
        .done ((.ok, some a), (pool.setAllocation a).2)
      else .next ())
    fun _ => ((.poolDepleted, none), pool)

/-- The loop of `check_lease` with its 32-bit variable. -/
def checkLeaseLoop (env : Env) : UInt32 × Sweep → Pass (UInt32 × Sweep) Sweep :=
  Loop.countPass (fun a => decide (a < pool.endAddress))
    (fun a w => .next (checkLeaseAt env pool.name w a)) id

end Loops

/-- A loop over the addresses of a pool is left with the result, and no address is met twice. -/
structure Scans {σ ρ : Type} (loop : UInt32 × σ → Pass (UInt32 × σ) ρ) (pool : AddressPool) (s : σ)
    (result : ρ) : Prop where
  stops : ∃ fuel, Loop.run loop fuel (pool.startAddress, s) = some result
  increasing : ∀ fuel,
    ((Loop.trace loop fuel (pool.startAddress, s)).map Prod.fst).Pairwise (· < ·)
  bounded : ∀ fuel, ∀ a ∈ (Loop.trace loop fuel (pool.startAddress, s)).map Prod.fst,
    pool.startAddress ≤ a ∧ a ≤ pool.endAddress + 1

section Scans

variable {pool : AddressPool}

theorem AddressPool.bounds (pool : AddressPool) :
    pool.startAddress.toNat < pool.endAddress.toNat ∧ pool.endAddress.toNat + 1 < 2 ^ 32 := by
  have hordered := UInt32.lt_iff_toNat_lt.mp pool.ordered
  have hbounded := UInt32.lt_iff_toNat_lt.mp pool.bounded
  simp only [UInt32.reduceToNat] at hbounded
  omega

/-- Because no pool ends at the largest address, a loop over it with either test is left. -/
theorem scans_countPass {σ ρ : Type} {test : UInt32 → Bool} {body : UInt32 → σ → Pass σ ρ}
    {leave : σ → ρ} (pool : AddressPool) (n : Nat)
    (hn : pool.startAddress.toNat + n ≤ pool.endAddress.toNat + 1)
    (htest : ∀ a, test a = true ↔ a.toNat < pool.startAddress.toNat + n) (s : σ) :
    Scans (Loop.countPass test body leave) pool s
      (Loop.scan body leave (Loop.countFrom pool.startAddress n) s) := by
  obtain ⟨hordered, hbounded⟩ := pool.bounds
  have hend : (pool.endAddress + 1).toNat = pool.endAddress.toNat + 1 :=
    Loop.toNat_succ hbounded (Nat.lt_succ_self _)
  have hlimit : pool.startAddress.toNat + n < 2 ^ 32 := by omega
  have htrace (fuel : Nat) := @Loop.trace_countPass σ ρ test body leave _ hlimit
    (fun a _ => htest a) fuel pool.startAddress s (Nat.le_add_right ..)
  refine ⟨⟨n + 1, Loop.run_countPass hlimit (fun a _ => htest a) s rfl⟩, ?_, ?_⟩
  · intro fuel
    exact (htrace fuel).1
  · intro fuel a ha
    have hbounds := (htrace fuel).2 a ha
    rw [UInt32.le_iff_toNat_le, UInt32.le_iff_toNat_le, hend]
    omega

/-- The loop over the list of addresses is the one with the variable. -/
theorem scan_assignFirst (addresses : List UInt32) :
    Loop.scan (fun a (_ : Unit) =>
        if pool.getAllocation a == 0 then
          Pass.done ((.ok, some a), (pool.setAllocation a).2)
        else .next ())
      (fun _ => (((.poolDepleted, none), pool) : Reply × AddressPool)) addresses () =
    match addresses.find? fun a => pool.getAllocation a == 0 with
    | some a => ((.ok, some a), (pool.setAllocation a).2)
    | none => ((.poolDepleted, none), pool) := by
  induction addresses with
  | nil => rfl
  | cons a addresses ih =>
    rw [Loop.scan, List.find?_cons]
    cases pool.getAllocation a == 0 with
    | true => rfl
    | false => exact ih

theorem scan_checkLease (env : Env) (addresses : List UInt32) (w : Sweep) :
    Loop.scan (fun a w => Pass.next (checkLeaseAt env pool.name w a)) id addresses w =
      addresses.foldl (checkLeaseAt env pool.name) w := by
  induction addresses generalizing w with
  | nil => rfl
  | cons a addresses ih => exact ih _

theorem assignFirst_scans (pool : AddressPool) :
    Scans (assignFirstLoop pool) pool () (allocatorAssignFirstFromPool pool) := by
  obtain ⟨hordered, -⟩ := pool.bounds
  have htest : ∀ a : UInt32, decide (a ≤ pool.endAddress) = true ↔ a.toNat <
      pool.startAddress.toNat + (pool.endAddress.toNat - pool.startAddress.toNat + 1) := by
    intro a
    rw [decide_eq_true_eq, UInt32.le_iff_toNat_le]
    omega
  have h : Scans (assignFirstLoop pool) pool () _ := scans_countPass pool _ (by omega) htest ()
  rw [scan_assignFirst] at h
  exact h

theorem checkLease_scans (pool : AddressPool) (env : Env) (w : Sweep) :
    Scans (checkLeaseLoop pool env) pool w (checkLease env w pool) := by
  obtain ⟨hordered, -⟩ := pool.bounds
  have hchecked : pool.checkedAddresses = Loop.countFrom pool.startAddress
      (pool.endAddress.toNat - pool.startAddress.toNat) := by
    rw [AddressPool.checkedAddresses, AddressPool.addresses, List.range_succ, List.map_append,
      List.map_singleton, List.dropLast_concat]
    rfl
  have htest : ∀ a : UInt32, decide (a < pool.endAddress) = true ↔ a.toNat <
      pool.startAddress.toNat + (pool.endAddress.toNat - pool.startAddress.toNat) := by
    intro a
    rw [decide_eq_true_eq, UInt32.lt_iff_toNat_lt]
    omega
  have h : Scans (checkLeaseLoop pool env) pool w _ :=
    scans_countPass pool _ (by omega) htest w
  rw [scan_checkLease, ← hchecked] at h
  exact h

end Scans

/-- In every allocation state of a pool that is accepted both loops over its addresses end, whatever
its mask, because the pool does not end at the largest address. -/
theorem pool_scans_terminate {name : CString} {start «end» mask : UInt32} {new : AddressPool}
    (h : addressPoolNew name start «end» mask = some new) (pool : AddressPool)
    (hpool : pool.startAddress = new.startAddress ∧ pool.endAddress = new.endAddress) :
    «end» < 0xffffffff ∧ pool.startAddress = start ∧ pool.endAddress = «end» ∧
      Scans (assignFirstLoop pool) pool () (allocatorAssignFirstFromPool pool) ∧
      ∀ env w,
        Scans (checkLeaseLoop pool env) pool w (checkLease env w pool) := by
  obtain ⟨hnew, -, -⟩ := AddressPool.addressPoolNew_eq_some h
  simp only [AddressPool.shape, Prod.mk.injEq] at hnew
  obtain ⟨-, rfl, rfl, -, -⟩ := hnew
  exact ⟨new.bounded, hpool.1, hpool.2, assignFirst_scans pool,
    fun env w => checkLease_scans pool env w⟩

/-- A pool up to the last address but one, under a mask that is not contiguous, with all its bits
set. -/
theorem pool_scans_last : ∃ new pool : AddressPool,
    addressPoolNew [] 0xfffffff1 0xfffffffe 0xffff00f0 = some new ∧
      pool.leasesBm = [0xff, 0xff] ∧
      Scans (assignFirstLoop pool) pool () (allocatorAssignFirstFromPool pool) := by
  obtain ⟨new, hnew⟩ := Option.isSome_iff_exists.mp
    (by decide +kernel : (addressPoolNew [] 0xfffffff1 0xfffffffe 0xffff00f0).isSome = true)
  obtain ⟨-, hbm, -⟩ := AddressPool.addressPoolNew_eq_some hnew
  have hfull : ((new.update 0 0xff 0).update 1 0xff 0).leasesBm = [0xff, 0xff] := by
    change (new.leasesBm.set 0 0xff).set 1 0xff = _
    rw [hbm]
    decide
  exact ⟨new, (new.update 0 0xff 0).update 1 0xff 0, hnew, hfull,
    (pool_scans_terminate hnew ((new.update 0 0xff 0).update 1 0xff 0) ⟨rfl, rfl⟩).2.2.2.1⟩

end DHCPServer
