import DHCPServer.Pool.Counter
import DHCPServer.Properties.CommandExchange
import DHCPServer.Properties.StartupLoad

namespace DHCPServer

section Counting

variable {env : Env} {s s' : Server} {m : Message} {now : UInt32}

theorem AddressPool.Fresh.counts {p : AddressPool} (h : p.Fresh) : p.Counts :=
  AddressPool.counts_of_free h.free h.available

theorem load_counts {recs : List LeaseRecord} {store : LeaseStore} {pool : AddressPool}
    (h : pool.Counts) : (recs.foldl (loadLease now) (store, pool)).2.Counts := by
  induction recs generalizing store pool with
  | nil => exact h
  | cons r recs ih =>
    rw [List.foldl_cons]
    unfold loadLease
    split
    · exact ih h
    · exact ih (h.set r.address)

/-- Every pool counts right when the leases have been loaded. -/
theorem startup_counts (cfg : Config) (files : LeaseStore) (now : UInt32) :
    (startup cfg files now).allocator.Counts := by
  intro q hq
  obtain ⟨p, hp, rfl, -, -⟩ := startup_pool hq
  exact load_counts (configuredPools_fresh cfg p hp).counts

theorem releaseAll_counts {a : AddressAllocator} (h : a.Counts) (xs : List UInt32) :
    (releaseAll a xs).Counts := by
  induction xs generalizing a with
  | nil => exact h
  | cons x xs ih => exact ih (h.release x)

theorem updateTimers_counts (h : s.allocator.Counts) (env : Env) :
    (updateTimers env s).allocator.Counts :=
  updateTimers_rule (P := fun a _ => a.Counts) (releaseAll_counts h _)
    fun _ _ _ _ x _ hP _ _ _ _ _ => hP.release x

theorem Effect.counts (heff : Effect env s m s') (h : s.allocator.Counts) :
    s'.allocator.Counts := by
  cases heff with
  | ignored => exact h
  | offered _ _ hg hr =>
    rw [hr.allocator]
    exact hg.counts h
  | refused _ hr | committed _ _ _ hr | renewed _ _ _ _ hr | notRenewed _ _ _ hr | informed _ hr =>
    rw [hr.allocator]
    exact h
  | released _ _ _ => exact h.release _
  | declined _ _ _ => exact h.requestThis _

/-- In every run the counters of the pools stay right. -/
theorem reachable_counts {c : PassCondition} (h : Reachable serve c.Holds Started s) :
    s.allocator.Counts := by
  refine (run_rule (P := fun s => s.allocator.Counts) ?_ ?_ ?_ ?_ ?_ h).2
  · intro s h
    obtain ⟨cfg, files, now, rfl⟩ := h
    exact ⟨startup_sound cfg files now, startup_counts cfg files now⟩
  · intro env s _ h _
    exact updateTimers_counts h env
  · intro s s' h hr _
    rwa [hr.allocator]
  · intro env s m s' _ h hacc _
    rwa [hacc.allocator]
  · intro env s₀ s m s' rv _ _ h _ _ heff
    exact heff.counts h

end Counting

/-- The line for a pool with the number of its addresses that are not allocated. -/
def freeLine (p : AddressPool) : CString :=
  (p.name ++ " (".toList ++ uint32ToIpv4Address p.startAddress ++ " to ".toList ++
    uint32ToIpv4Address p.endAddress ++ "): ".toList ++ decimal p.freeCount ++
    " available leases".toList).take (bufsiz - 1)

section Status

variable {cjson : JsonPrinter} {snooping : Bool} {w : ScanWorld} {s : Server}

theorem poolStatusLine_eq {p : AddressPool} (h : p.Counts) (hc : p.Covered) :
    poolStatusLine p = freeLine p := by
  rw [poolStatusLine, freeLine, h hc, AddressPool.ncard_unallocated]

/-- Whenever in a run `pool-status` is asked for, behind the update of the timers, the server sends
one line for each pool, which tells how many of its addresses are not allocated. -/
theorem pool_status_counts_free {params : List CString}
    (hc : cjson.LawfulOn (· = commandObject "pool-status".toList params))
    (h : Reachable serve PassCondition.always.Holds Started s) (hcover : s.allocator.Covered)
    (env : Env) {text : CString} {interrupts : Bool} :
    unixServerHandle cjson (initUnixCommands cjson snooping w) (updateTimers env s)
        (cjson.printUnformatted (commandObject "pool-status".toList params)) =
          .ok (.sent text interrupts) ↔
      (cjson.printUnformatted (commandObject "pool-status".toList params)).length < bufsiz ∧
        text = cjson.printUnformatted (.array
          ((updateTimers env s).allocator.addressPools.map fun p => .string (freeLine p))) ∧
        interrupts = false := by
  have hcounts := updateTimers_counts (reachable_counts h) env
  have hcovered := AddressAllocator.covered_of_shape (updateTimers_shape env s) hcover
  have hlines : (updateTimers env s).allocator.addressPools.map poolStatusLine =
      (updateTimers env s).allocator.addressPools.map freeLine :=
    List.map_congr_left fun p hp => poolStatusLine_eq (hcounts p hp) (hcovered p hp)
  have hmember : "pool-status".toList ∈ serverCommands := by decide
  have hreply : unixHandleCommand (initUnixCommands cjson snooping w) (updateTimers env s)
      (commandObject "pool-status".toList params) = .ok (.reply (cjson.printUnformatted
        (.array ((updateTimers env s).allocator.addressPools.map fun p =>
          .string (poolStatusLine p)))) false) := rfl
  have hjson : ((updateTimers env s).allocator.addressPools.map fun p =>
        Json.string (poolStatusLine p)) =
      (updateTimers env s).allocator.addressPools.map fun p => Json.string (freeLine p) := by
    have hmap := congrArg (List.map Json.string) hlines
    rwa [List.map_map, List.map_map] at hmap
  rw [unixServerHandle_sent hc rfl hmember, hreply, hjson]
  apply and_congr_right
  intro _
  constructor
  · intro hok
    cases hok
    exact ⟨rfl, rfl⟩
  · intro hok
    obtain ⟨rfl, rfl⟩ := hok
    rfl

end Status

/-- After one OFFER two of the three addresses are shown as available. -/
theorem pool_status_after_discover :
    ∃ s, Reachable serve PassCondition.always.Holds Started s ∧
      unixServerHandle JsonText.printer (initUnixCommands JsonText.printer false silentWorld)
        (updateTimers (.fair 1002) s)
        (JsonText.printer.printUnformatted (commandObject "pool-status".toList [])) =
          .ok (.sent "[\"a (10.0.0.1 to 10.0.0.3): 2 available leases\"]".toList false) := by
  have hrun : ([discoverBy 1001 7 1].foldlM (Reachable.checked serve fun _ _ => true)
      smallServer).any (fun s => s.allocator.addressPools.all (fun p => decide p.Covered) &&
        decide ("[\"a (10.0.0.1 to 10.0.0.3): 2 available leases\"]".toList =
          JsonText.printer.printUnformatted (.array
            ((updateTimers (.fair 1002) s).allocator.addressPools.map fun p => .string (freeLine p))))) =
      true := by decide +kernel
  obtain ⟨s, hs, htest⟩ := Reachable.of_run (fun s e _ => PassCondition.always_holds s e)
    [discoverBy 1001 7 1] smallServer_started hrun
  rw [Bool.and_eq_true, List.all_eq_true, decide_eq_true_eq] at htest
  obtain ⟨hcovered, htext⟩ := htest
  exact ⟨s, hs, (pool_status_counts_free (JsonText.printer_lawful _) hs
    (fun p hp => decide_eq_true_eq.mp (hcovered p hp)) (.fair 1002)).mpr
    ⟨by decide +kernel, htext, rfl⟩⟩

end DHCPServer
