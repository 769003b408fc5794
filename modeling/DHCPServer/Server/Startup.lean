import DHCPServer.Lease.Load
import DHCPServer.Server.Runs

namespace DHCPServer

section Configuration

variable {a : AddressAllocator} {cfgs : List PoolConfig}

/-- What holds of no pool at first and of every freshly made one holds of the configured ones. -/
theorem configLoadPools_rule {P : AddressAllocator → Prop} (h₀ : P a)
    (hadd : ∀ a, ∀ c ∈ cfgs, ∀ pool, P a →
      addressPoolNew c.name c.start c.end c.subnet = some pool →
      P (allocatorAddPool a (pool.addOptions c.options)).2) : P (configLoadPools a cfgs) := by
  unfold configLoadPools
  induction cfgs generalizing a with
  | nil => exact h₀
  | cons c cfgs ih =>
    have hrest := fun a c' (hc' : c' ∈ cfgs) => hadd a c' (List.mem_cons_of_mem _ hc')
    rw [List.foldl_cons]
    cases hnew : addressPoolNew c.name c.start c.end c.subnet with
    | none => exact ih h₀ hrest
    | some pool => exact ih (hadd a c List.mem_cons_self pool h₀ hnew) hrest

theorem configLoadPools_names (hn : (a.addressPools.map (·.name)).Nodup) :
    ((configLoadPools a cfgs).addressPools.map (·.name)).Nodup := by
  refine configLoadPools_rule (P := fun a => (a.addressPools.map (·.name)).Nodup) hn ?_
  intro a c _ pool hn _
  exact AddressAllocator.addPool_names hn

theorem configLoadPools_free (hf : ∀ p ∈ a.addressPools, ∀ x, p.isAllocated x = false) :
    ∀ p ∈ (configLoadPools a cfgs).addressPools, ∀ x, p.isAllocated x = false := by
  refine configLoadPools_rule
    (P := fun a => ∀ p ∈ a.addressPools, ∀ x, p.isAllocated x = false) hf ?_
  intro a c _ pool hf hnew p hp x
  rcases AddressAllocator.addPool_pools a (pool.addOptions c.options) with heq | ⟨-, heq⟩
  · exact hf p (heq ▸ hp) x
  · rw [heq, List.mem_append, List.mem_singleton] at hp
    rcases hp with hp | rfl
    · exact hf p hp x
    · exact AddressPool.addressPoolNew_free hnew c.options x

end Configuration

section Startup

variable {cfg : Config} {files : LeaseStore} {now : UInt32}

/-- The pools of a configuration before the leases are loaded. -/
def configuredPools (cfg : Config) : List AddressPool :=
  (configLoadPools addressAllocatorNew cfg.pools).addressPools

theorem configuredPools_names (cfg : Config) : ((configuredPools cfg).map (·.name)).Nodup :=
  configLoadPools_names (a := addressAllocatorNew) List.nodup_nil

theorem configuredPools_free (cfg : Config) :
    ∀ p ∈ configuredPools cfg, ∀ x, p.isAllocated x = false :=
  configLoadPools_free (by simp [addressAllocatorNew])

theorem startup_sound (cfg : Config) (files : LeaseStore) (now : UInt32) :
    (startup cfg files now).transCache.Sound :=
  TransactionCache.sound_new _ _ _

theorem startup_subset {n : CString} {r : LeaseRecord}
    (h : r ∈ (startup cfg files now).leases n) : r ∈ files n := initLoad_subset h

/-- Every pool of the started server is a configured one with its own file loaded. -/
theorem startup_pool {q : AddressPool}
    (hq : q ∈ (startup cfg files now).allocator.addressPools) :
    ∃ p ∈ configuredPools cfg, q = (loadPoolLeases now files p).2 ∧ q.shape = p.shape ∧
      (startup cfg files now).leases q.name = (loadPoolLeases now files p).1 p.name := by
  obtain ⟨hpools, hfiles⟩ :=
    @initLoad_eq now files _ (configuredPools_names cfg)
  have hq' : q ∈ (initLoadPersistenLeases now files (configuredPools cfg)).2 := hq
  rw [hpools, List.mem_map] at hq'
  obtain ⟨p, hp, rfl⟩ := hq'
  have hshape : (loadPoolLeases now files p).2.shape = p.shape := load_shape _ _ _ _
  have hname : (loadPoolLeases now files p).2.name = p.name := congrArg Prod.fst hshape
  refine ⟨p, hp, rfl, hshape, ?_⟩
  rw [hname]
  exact hfiles p hp

/-- A freshly started server has allocated only addresses that have a lease. -/
theorem startup_recorded {q : AddressPool}
    (hq : q ∈ (startup cfg files now).allocator.addressPools) {x : UInt32}
    (hx : q.isAllocated x = true) : ∃ r ∈ (startup cfg files now).leases q.name, r.address = x := by
  obtain ⟨p, hp, rfl, -, hfile⟩ := startup_pool hq
  rw [hfile]
  rcases load_isAllocated hx with h | h
  · rw [configuredPools_free cfg p hp x] at h
    cases h
  · exact loaded_iff_runs.mpr h

/-- A freshly started server has marked every lease whose address is one of its pool. -/
theorem startup_marked {q : AddressPool}
    (hq : q ∈ (startup cfg files now).allocator.addressPools) (hc : q.Covered) {r : LeaseRecord}
    (hr : r ∈ (startup cfg files now).leases q.name)
    (hb : addressBelongsToPool q r.address = true) : q.isAllocated r.address = true := by
  obtain ⟨p, -, rfl, hshape, hfile⟩ := startup_pool hq
  rw [hfile] at hr
  obtain ⟨r', hr', hx, hrun⟩ := loaded_iff_runs.mp ⟨r, hr, rfl⟩
  rw [← hx] at hb ⊢
  exact load_marks ((AddressPool.covered_of_shape hshape).mp hc) hr' hrun
    ((AddressPool.belongs_of_shape hshape _).symm.trans hb)

/-- The files have no influence on the options and the ranges of the pools. -/
theorem startup_shape (cfg : Config) (files : LeaseStore) (now : UInt32) :
    (startup cfg files now).allocator.shape =
      AddressAllocator.shape ⟨initDhcpOptions cfg, configuredPools cfg⟩ := by
  obtain ⟨hpools, -⟩ := @initLoad_eq now files _ (configuredPools_names cfg)
  have heq : (initLoadPersistenLeases now files (configuredPools cfg)).2.map AddressPool.shape =
      (configuredPools cfg).map AddressPool.shape := by
    rw [hpools, List.map_map]
    exact List.map_congr_left fun p _ => load_shape now (files p.name) files p
  exact congrArg (Prod.mk (initDhcpOptions cfg)) heq

theorem startup_names (cfg : Config) (files : LeaseStore) (now : UInt32) :
    (startup cfg files now).allocator.poolNames.Nodup := by
  rw [AddressAllocator.poolNames_of_shape (startup_shape cfg files now)]
  exact configuredPools_names cfg

/-- The lease time and the server identifier are configured in every started server. -/
theorem startup_options (cfg : Config) (files : LeaseStore) (now : UInt32) :
    (dhcpOptionRetrieve (startup cfg files now).allocator.defaultOptions
        Tag.ipAddressLeaseTime).isSome ∧
      (dhcpOptionRetrieve (startup cfg files now).allocator.defaultOptions
        Tag.serverIdentifier).isSome :=
  ⟨retrieve_add_isSome _ (retrieve_add_self _ _), retrieve_add_self _ _⟩

theorem startup_all (cfg : Config) (files : LeaseStore) (now : UInt32) (Q : Message → Prop) :
    (startup cfg files now).transCache.All Q := by
  intro t ht m hm
  obtain ⟨-, rfl⟩ := List.mem_replicate.mp ht
  cases hm

/-- The states in which `dhcp_server_serve` is entered. -/
def Started (s : Server) : Prop := ∃ cfg files now, s = startup cfg files now

theorem reachable_sound {c : PassCondition} {s : Server} (h : Reachable serve c.Holds Started s) :
    s.transCache.Sound := by
  refine (run_rule (P := fun _ => True) ?_ ?_ ?_ ?_ ?_ h).1
  · intro s h
    obtain ⟨cfg, files, now, rfl⟩ := h
    exact ⟨startup_sound cfg files now, trivial⟩
  all_goals intros; trivial

end Startup

section SmallNetwork

/-- One pool of three addresses, 10.0.0.1 to 10.0.0.3, with leases of an hour; transactions last
a minute. -/
def smallNetwork : Config where
  boundIp := 0x0a0000fe
  broadcastAddr := 0x0a0000ff
  pools := [⟨['a'], 0x0a000001, 0x0a000003, 0xffffff00, []⟩]
  options := []
  leaseTime := 3600
  cacheSize := 4
  transDuration := 60
  leaseExpirationCheck := 60
  acl := ⟨[], false, true⟩

/-- The small network's server without any leases. -/
def smallServer : Server := startup smallNetwork (fun _ => []) 1000

theorem smallServer_started : Started smallServer := ⟨_, _, _, rfl⟩

/-- The small network's allocator before leases are loaded. -/
def smallAllocator : AddressAllocator := ⟨initDhcpOptions smallNetwork, configuredPools smallNetwork⟩

theorem smallNetwork_shape (files : LeaseStore) :
    (startup smallNetwork files 1000).allocator.shape = smallAllocator.shape :=
  startup_shape smallNetwork files 1000

theorem smallAllocator_wellFormed : smallAllocator.WellFormed :=
  ⟨AddressAllocator.disjoint_of_increasing (by decide +kernel),
    show ∀ p ∈ smallAllocator.addressPools, p.Covered by decide +kernel, by decide +kernel⟩

theorem smallAllocator_names : ∀ n ∈ smallAllocator.poolNames, n = ['a'] := by decide +kernel

/-- The packet of a client with the hardware address `mac` and ten zero bytes behind it. -/
def clientPacket (xid ciaddr : UInt32) (mac options : List UInt8) : Datagram :=
  ⟨([1, 1, 6, 0] ++ be32Bytes xid ++ [0, 0, 0, 0] ++ be32Bytes ciaddr ++ List.replicate 12 0 ++
    mac ++ List.replicate 10 0 ++ List.replicate 192 0 ++ be32Bytes magicCookie ++ options).take
    packetSize, List.length_take_le _ _⟩

/-- A pass in which a packet has come in and all goes well. -/
def receives (now : UInt32) (d : Datagram) : Event := ⟨.fair now, some d⟩

/-- The client 02:00:00:00:00:`client` sends a DISCOVER. -/
def discoverBy (now xid : UInt32) (client : UInt8) : Event :=
  receives now (clientPacket xid 0 [2, 0, 0, 0, 0, client] [53, 1, 1, 55, 1, 1, 255])

/-- The client answers an OFFER of the server with a REQUEST for 10.0.0.`host`. -/
def requestBy (now xid : UInt32) (client host : UInt8) : Event :=
  receives now (clientPacket xid 0 [2, 0, 0, 0, 0, client]
    [53, 1, 3, 54, 4, 10, 0, 0, 254, 50, 4, 10, 0, 0, host, 55, 1, 1, 255])

/-- The client renews its lease of the address. -/
def renewBy (now xid address : UInt32) (client : UInt8) : Event :=
  receives now (clientPacket xid address [2, 0, 0, 0, 0, client] [53, 1, 3, 55, 1, 1, 255])

/-- A pass without a packet. -/
def passes (now : UInt32) : Event := ⟨.fair now, none⟩

/-- 10.0.0.1 is leased to the client 02:00:00:00:00:01 until 4600. -/
def leasedFiles : LeaseStore := fun n =>
  if n = ['a'] then [⟨0x0a000001, 0xffffff00, 7, 1000, 4600, 0, (Buffer.zero 6).write 0 [2, 0, 0, 0, 0, 1]⟩]
  else []

/-- The small network's server with that lease loaded. -/
def leasedServer : Server := startup smallNetwork leasedFiles 1000

theorem leasedServer_started : Started leasedServer := ⟨_, _, _, rfl⟩

end SmallNetwork

end DHCPServer
