import DHCPServer.Framework.Transition
import DHCPServer.Server.Messages

namespace DHCPServer

/-- `trans_timer_cb_clear`: the address of the first OFFER goes back to its pool unless an ACK is
found, and the transaction is cleared. -/
def transTimerCbClear (now : UInt32) (a : AddressAllocator) (t : Transaction) :
    AddressAllocator × Transaction :=
  let a :=
    match transSearchFor t MsgType.offer with
    | none => a
    | some offer =>
      if (transSearchFor t MsgType.ack).isSome then a
      else (allocatorReleaseAddress a offer.yiaddr).2
  (a, transClear now t)

def Transaction.setTimer (t : Transaction) (timer : Timer) : Transaction := { t with timer := timer }

def transUpdateTimer (now : UInt32) (a : AddressAllocator) (t : Transaction) :
    AddressAllocator × Transaction :=
  let (fires, timer) := timerUpdate now t.timer
  if fires then transTimerCbClear now a (t.setTimer timer) else (a, t.setTimer timer)

/-- The loop of `update_timers` over the slots of the cache. -/
def updateTransactions (now : UInt32) : AddressAllocator → TransactionCache →
    AddressAllocator × TransactionCache
  | a, [] => (a, [])
  | a, t :: ts =>
    let (a, t) := if t.timer.isRunning then transUpdateTimer now a t else (a, t)
    let (a, ts) := updateTransactions now a ts
    (a, t :: ts)

/-- What the expiry check works on, and how many leases it has released. -/
structure Sweep where
  allocator : AddressAllocator
  leases : LeaseStore
  released : Nat

/-- One pass of the loop of `check_lease`. -/
def checkLeaseAt (env : Env) (poolName : CString) (w : Sweep) (a : UInt32) : Sweep :=
  if allocatorIsAddressAvailable w.allocator a then w
  else
    match leaseRetrieve w.leases a poolName with
    | none => w
    | some lease =>
      if env.now < lease.record.leaseExpire then w
      else
        match leaseRemove (env.sweeps poolName a) w.leases lease.record.address lease.poolName with
        | (false, leases) => ⟨w.allocator, leases, w.released⟩
        | (true, leases) => ⟨(allocatorReleaseAddress w.allocator a).2, leases, w.released + 1⟩

/-- The addresses `for (a = start_address; a < end_address; a++)` visits: all but the last. -/
def AddressPool.checkedAddresses (pool : AddressPool) : List UInt32 := pool.addresses.dropLast

def checkLease (env : Env) (w : Sweep) (pool : AddressPool) : Sweep :=
  pool.checkedAddresses.foldl (checkLeaseAt env pool.name) w

/-- `check_lease_expirations`. The bounds and names of the pools do not change under it. -/
def checkLeaseExpirations (env : Env) (s : Server) : Sweep :=
  s.allocator.addressPools.foldl (checkLease env) ⟨s.allocator, s.leases, 0⟩

def updateTimers (env : Env) (s : Server) : Server :=
  let (a, cache) := updateTransactions env.now s.allocator s.transCache
  let s := (s.setAllocator a).setTransCache cache
  let (fires, timer) := timerUpdate env.now s.leaseExpirationCheck
  let s := s.setCheck timer
  if fires then
    let w := checkLeaseExpirations env s
    (s.setAllocator w.allocator).setLeases w.leases
  else s

/-- The part of a pass of `dhcp_server_serve` from `recv` to the switch: the packet is parsed into
the one message buffer, checked against the xid of the scan and both access lists, and stored. The
message comes back if it is to be handled. -/
def accept (env : Env) (s : Server) (d : Datagram) : Except Fault (Option Message × Server) := do
  let (ok, m) ← receive s.dhcpMsg d
  let s := s.setDhcpMsg m
  if !ok then return (none, s)
  if env.xidUsedInScan = some m.xid then return (none, s)
  if aclCheckClient s.acl m.mac ≠ .allow then return (none, s)
  let (status, dacl) := dynamicAclCheck s.dacl m.mac s.transCache
  let s := s.setDacl dacl
  if status ≠ .allow then return (none, s)
  if m.type = MsgType.offer ∨ m.type = MsgType.ack ∨ m.type = MsgType.nak then return (none, s)
  let (stored, cache) := transCacheAddMessage env.now s.transCache m
  let s := (s.setDhcpMsg (m.setTime env.now)).setTransCache cache
  if !stored then return (none, s)
  return (some (m.setTime env.now), s)

/-- A datagram that has come in is handled if it is accepted. -/
def serveDatagram (env : Env) (s : Server) (d : Datagram) : Except Fault Server := do
  let (accepted, s) ← accept env s d
  match accepted with
  | none => return s
  | some m =>
    let (_, s) ← dispatch env s m
    return s

/-- One pass of the loop of `dhcp_server_serve`: the world, and the datagram waiting, if any. -/
structure Event where
  env : Env
  datagram : Option Datagram

def serve (s : Server) (e : Event) : Except Fault Server :=
  let s := updateTimers e.env s
  match e.datagram with
  | none => return s
  | some d => serveDatagram e.env s d

/-- A pool of the configuration file. -/
structure PoolConfig where
  name : CString
  start : UInt32
  «end» : UInt32
  subnet : UInt32
  options : List DhcpOption

/-- The configuration a server is started with. -/
structure Config where
  boundIp : UInt32
  broadcastAddr : UInt32
  pools : List PoolConfig
  options : List DhcpOption
  leaseTime : UInt32
  cacheSize : Nat
  transDuration : UInt32
  leaseExpirationCheck : UInt32
  acl : Acl

/-- The pools of a configuration are made one by one; what cannot be made or has the name of an
earlier pool is left out. -/
def configLoadPools (a : AddressAllocator) (pools : List PoolConfig) : AddressAllocator :=
  pools.foldl (fun a p =>
    match addressPoolNew p.name p.start p.end p.subnet with
    | none => a
    | some pool => (allocatorAddPool a (pool.addOptions p.options)).2) a

/-- The options of the configuration, with the lease time and the server identifier added by
`init_dhcp_options` where the configuration does not have them. -/
def initDhcpOptions (cfg : Config) : List DhcpOption :=
  let options := cfg.options.foldl dhcpOptionAdd []
  let options := dhcpOptionAdd options
    (dhcpOptionNewValues Tag.ipAddressLeaseTime 4 (le32Bytes cfg.leaseTime))
  dhcpOptionAdd options (dhcpOptionNewValues Tag.serverIdentifier 4 (le32Bytes cfg.boundIp))

/-- The server when `main` enters `dhcp_server_serve`: configured, with the leases of the files
loaded. -/
def startup (cfg : Config) (files : LeaseStore) (now : UInt32) : Server :=
  let pools := (configLoadPools addressAllocatorNew cfg.pools).addressPools
  { boundIp := cfg.boundIp
    broadcastAddr := cfg.broadcastAddr
    allocator := ⟨initDhcpOptions cfg, (initLoadPersistenLeases now files pools).2⟩
    transCache := transCacheNew now cfg.cacheSize cfg.transDuration
    leaseExpirationCheck := timerNew now .repeat cfg.leaseExpirationCheck true
    acl := cfg.acl
    dacl := initDynamicAcl
    leases := (initLoadPersistenLeases now files pools).1
    dhcpMsg := dhcpMessageNew
    sent := [] }

end DHCPServer
