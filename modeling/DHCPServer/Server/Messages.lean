import DHCPServer.Server.State

namespace DHCPServer

/-- `get_requested_dhcp_options` of the offer and the ack: the client's option 55 is used without
a check, the options are those of the pool of the address. `none` stands for -1. -/
def getRequestedDhcpOptions (required blacklisted : List UInt8) (type : UInt8)
    (allocator : AddressAllocator) (m : Message) (address : UInt32) :
    Except Fault (Option (List DhcpOption)) := do
  let requestedOptionsList ← deref (m.option Tag.parameterRequestList)
  match allocatorGetPoolByAddress allocator address with
  | none => return none
  | some pool =>
    return dhcpOptionBuildRequiredOptions blacklisted allocator.defaultOptions
      pool.dhcpOptionOverride []
      (requestedOptionsList.value.data.take requestedOptionsList.lenght.toNat) required type

/-- The options of a DHCPOFFER, with the client identifier of the DISCOVER. -/
def offerOptions (allocator : AddressAllocator) (discover : Message) (address : UInt32) :
    Except Fault (Option (List DhcpOption)) := do
  match ← getRequestedDhcpOptions [51, 54, 0] [50, 55, 61, 57, 0] 2 allocator discover address with
  | none => return none
  | some options =>
    match discover.option Tag.clientIdentifier with
    | none => return some options
    | some o61 =>
      return some (dhcpOptionAdd options
        (dhcpOptionNewValues Tag.clientIdentifier o61.lenght o61.value.data))

def messageDhcpofferBuild (env : Env) (s : Server) (discover : Message)
    (offeredAddress _offeredLeaseDuration : UInt32) : Except Fault (Bool × Server) := do
  let offer := replyTo discover 0 offeredAddress s.boundIp discover.giaddr MsgType.offer
  match ← offerOptions s.allocator discover offeredAddress with
  | none => return (false, s)
  | some options => return deliver env s (offer.setOptions options) s.broadcastAddr

def allocateParticularAddress (a : AddressAllocator) (m : Message) : UInt32 × AddressAllocator :=
  match m.option Tag.requestedIpAddress with
  | none => (0, a)
  | some o50 =>
    let (reply, a) := allocatorRequestThisAddress a o50.ip
    (reply.2.getD 0, a)

def allocateRandomAddress (a : AddressAllocator) : UInt32 × AddressAllocator :=
  let (reply, a) := allocatorRequestAnyAddress a
  (reply.2.getD 0, a)

def getLeaseDuration (a : AddressAllocator) (m : Message) : UInt32 :=
  match dhcpOptionRetrieve a.defaultOptions Tag.ipAddressLeaseTime with
  | none => 0
  | some o51Global =>
    match m.option Tag.ipAddressLeaseTime with
    | some o51Requested =>
      if o51Requested.number ≤ o51Global.number then o51Requested.number else o51Global.number
    | none => o51Global.number

/-- The first part of `message_dhcpdiscover_handle`: the address the client asks for, or any. -/
def obtainAddress (a : AddressAllocator) (m : Message) : UInt32 × AddressAllocator :=
  let (address, a) :=
    if (m.option Tag.requestedIpAddress).isSome then allocateParticularAddress a m else (0, a)
  if address = 0 then allocateRandomAddress a else (address, a)

def messageDhcpdiscoverHandle (env : Env) (s : Server) (m : Message) :
    Except Fault (Int × Server) := do
  let newAddress := (obtainAddress s.allocator m).1
  let s := s.setAllocator (obtainAddress s.allocator m).2
  if newAddress = 0 then return (-1, s)
  let leaseTime := getLeaseDuration s.allocator m
  if leaseTime = 0 then return (-1, s)
  let (ok, s) ← messageDhcpofferBuild env s m newAddress leaseTime
  return (if ok then 0 else -1, s)

/-- The address an ack goes to: the client's own, or the broadcast address. -/
def ackDestination (s : Server) (ciaddr : UInt32) : UInt32 :=
  if ciaddr ≠ 0 then ciaddr else s.broadcastAddr

/-- The body the three ack builders share. -/
def sendAck (env : Env) (s : Server) (ack : Message)
    (options : Except Fault (Option (List DhcpOption))) : Except Fault (Bool × Server) := do
  match ← options with
  | none => return (false, s)
  | some options => return deliver env s (ack.setOptions options) (ackDestination s ack.ciaddr)

/-- `message_dhcpack_build`. The type of the message stays 0. -/
def messageDhcpackBuild (env : Env) (s : Server) (request : Message)
    (_ackedLeaseDuration leasedAddress : UInt32) : Except Fault (Bool × Server) :=
  let ack := replyTo request request.ciaddr leasedAddress s.boundIp request.giaddr 0
  sendAck env s ack
    (getRequestedDhcpOptions [51, 54, 0] [50, 55, 61, 57, 0] 5 s.allocator request leasedAddress)

/-- `message_dhcpack_build_lease_renew`. The type of the message stays 0. -/
def messageDhcpackBuildLeaseRenew (env : Env) (s : Server) (request : Message) :
    Except Fault (Bool × Server) :=
  let ack := replyTo request request.ciaddr request.ciaddr s.boundIp 0 0
  sendAck env s ack
    (getRequestedDhcpOptions [51, 54, 0] [50, 55, 61, 57, 0] 5 s.allocator request request.ciaddr)

def messageDhcpackBuildInformResponse (env : Env) (s : Server) (inform : Message) :
    Except Fault (Bool × Server) :=
  if inform.ciaddr = 0 then return (false, s)
  else
    let ack := replyTo inform inform.ciaddr 0 s.boundIp inform.giaddr MsgType.ack
    sendAck env s ack
      (getRequestedDhcpOptions [54, 0] [50, 51, 55, 61, 57, 0] 5 s.allocator inform inform.ciaddr)

/-- `message_dhcpnak_build`; the pool options it passes on are the global ones again. -/
def messageDhcpnakBuild (env : Env) (s : Server) (request : Message) : Bool × Server :=
  let nak := replyTo request 0 0 0 request.giaddr MsgType.nak
  match dhcpOptionBuildRequiredOptions [0] s.allocator.defaultOptions s.allocator.defaultOptions []
      [0] [54, 0] 6 with
  | none => (false, s)
  | some options => deliver env s (nak.setOptions options) s.broadcastAddr

/-- `enum dhcp_request_status` -/
inductive RequestStatus
  | commitError
  | invalid
  | error
  | ok
  | differentServerIdentificator
  deriving DecidableEq

def RequestStatus.code : RequestStatus → Int
  | commitError => -3
  | invalid => -2
  | error => -1
  | ok => 0
  | differentServerIdentificator => 1

/-- The record `dhcp_requst_commit_lease` writes for a client. -/
def newLease (now : UInt32) (request : Message) (pool : AddressPool)
    (leaseTime leasedAddress : UInt32) : Lease where
  record :=
    { address := leasedAddress
      subnet := pool.mask
      xid := request.xid
      leaseStart := now
      leaseExpire := now + leaseTime
      flags := 0
      clientMacAddress := request.mac }
  poolName := pool.name

def dhcpRequstCommitLease (env : Env) (s : Server) (request : Message)
    (leaseTime leasedAddress : UInt32) : RequestStatus × Server :=
  match allocatorGetPoolByAddress s.allocator leasedAddress with
  | none => (.commitError, s)
  | some pool =>
    let (added, leases) :=
      leaseAdd env.writes s.leases (newLease env.now request pool leaseTime leasedAddress)
    (if added then .ok else .commitError, s.setLeases leases)

/-- `memcmp` of the values of two options over the length of the first one. -/
def sameValue (request discover : DhcpOption) : Bool :=
  request.value.data.take request.lenght.toNat == discover.value.data.take request.lenght.toNat

def validateClientIdAndRequestedParams (cache : TransactionCache) (request : Message) : Bool :=
  match transCacheRetrieveMessage cache request.xid MsgType.discover with
  | none => false
  | some discover =>
    let sameClient :=
      match request.option Tag.clientIdentifier, discover.option Tag.clientIdentifier with
      | some r, some d => sameValue r d
      | _, _ => true
    let sameParameters :=
      match request.option Tag.parameterRequestList, discover.option Tag.parameterRequestList with
      | some r, some d => sameValue r d
      | _, _ => false
    sameClient && sameParameters

/-- `retrieve_client_address`; without option 50 in the request, option 50 of the cached OFFER is
asked for. -/
def retrieveClientAddress (request : Message) (cache : TransactionCache) : UInt32 :=
  match request.option Tag.requestedIpAddress with
  | some o50 => o50.ip
  | none =>
    match (transCacheRetrieveMessage cache request.xid MsgType.offer).bind
        (·.option Tag.requestedIpAddress) with
    | some o50 => o50.ip
    | none => 0

/-- `retrieve_lease_time`; the pool is used without a check. -/
def retrieveLeaseTime (address : UInt32) (a : AddressAllocator) : Except Fault UInt32 :=
  if address = 0 then return 0
  else do
    let pool ← deref (allocatorGetPoolByAddress a address)
    match configuredOption a.defaultOptions pool.dhcpOptionOverride Tag.ipAddressLeaseTime with
    | none => return 0
    | some o51 => return o51.number

def dhcpRequestResponseToOffer (env : Env) (s : Server) (request : Message) (o54 : DhcpOption) :
    Except Fault (RequestStatus × Server) :=
  if o54.ip ≠ s.boundIp then return (.differentServerIdentificator, s)
  else if request.ciaddr ≠ 0 ∨ request.yiaddr ≠ 0 then return (.invalid, s)
  else if !validateClientIdAndRequestedParams (env.seen s.transCache) request then
    return (.invalid, s)
  else
    let requestedIp := retrieveClientAddress request s.transCache
    if requestedIp = 0 then return (.invalid, s)
    else if allocatorIsAddressAvailable s.allocator requestedIp then return (.invalid, s)
    else do
      let leaseTime ← retrieveLeaseTime requestedIp s.allocator
      if leaseTime = 0 then return (.invalid, s)
      match dhcpRequstCommitLease env s request leaseTime requestedIp with
      | (.ok, s) => return (.ok, s)
      -- the status the caller gets is the one set before the checks
      | (_, s) => return (.invalid, s)

/-- `dhcp_request_renew_lease`; `true` stands for the return value 0. -/
def dhcpRequestRenewLease (env : Env) (s : Server) (request : Message) :
    Except Fault (Bool × Server) :=
  if request.ciaddr = 0 then return (false, s)
  else
    match leaseRetrieveAddress s.leases request.ciaddr s.allocator.addressPools with
    | none => return (false, s)
    | some lease =>
      if lease.record.clientMacAddress ≠ request.mac then return (false, s)
      else
        let (removed, leases) :=
          leaseRemove env.rewrite s.leases lease.record.address lease.poolName
        let s := s.setLeases leases
        if !removed then return (false, s)
        else do
          let leaseTime ← retrieveLeaseTime request.ciaddr s.allocator
          let record := { lease.record with
            leaseStart := env.now
            leaseExpire := env.now + leaseTime }
          let (added, leases) := leaseAdd env.extends s.leases ⟨record, lease.poolName⟩
          return (added, s.setLeases leases)

/-- `message_dhcprequest_handle`. A reply that cannot be built or sent leaves the status of the
step before it as the return value. -/
def messageDhcprequestHandle (env : Env) (s : Server) (request : Message) :
    Except Fault (Int × Server) :=
  match request.option Tag.serverIdentifier with
  | some o54 => do
    let (status, s) ← dhcpRequestResponseToOffer env s request o54
    match status with
    | .commitError | .invalid | .error =>
      let (ok, s) := messageDhcpnakBuild env s request
      return (if ok then 0 else status.code, s)
    | .differentServerIdentificator => return (0, s)
    | .ok =>
      let o50 ← deref (request.option Tag.requestedIpAddress)
      let (ok, s) ← messageDhcpackBuild env s request o54.number o50.ip
      return (if ok then 0 else status.code, s)
  | none =>
    if request.ciaddr = 0 then return (0, s)
    else do
      let (_, s) ← dhcpRequestRenewLease env s request
      let (ok, s) ← messageDhcpackBuildLeaseRenew env s request
      return (if ok then 0 else -1, s)

def messageDhcpreleaseHandle (env : Env) (s : Server) (m : Message) : Int × Server :=
  if m.ciaddr = 0 then (-1, s)
  else
    match leaseRetrieveAddress s.leases m.ciaddr s.allocator.addressPools with
    | none => (-1, s)
    | some lease =>
      let (removed, leases) :=
        leaseRemove env.rewrite s.leases lease.record.address lease.poolName
      let s := s.setLeases leases
      if !removed then (-1, s)
      else
        let (reply, a) := allocatorReleaseAddress s.allocator lease.record.address
        (if reply.1 = .ok then 0 else -1, s.setAllocator a)

def messageDhcpdeclineHandle (s : Server) (m : Message) : Int × Server :=
  match transCacheRetrieveMessageLast s.transCache m.xid MsgType.ack with
  | none => (-1, s)
  | some ack =>
    if ack.yiaddr = 0 then (-1, s)
    else if allocatorIsAddressAvailable s.allocator ack.yiaddr then
      (0, s.setAllocator (allocatorRequestThisAddress s.allocator ack.yiaddr).2)
    else (0, s)

def messageDhcpinformHandle (env : Env) (s : Server) (m : Message) :
    Except Fault (Int × Server) := do
  let (ok, s) ← messageDhcpackBuildInformResponse env s m
  return (if ok then 0 else -1, s)

/-- The switch of `dhcp_server_serve` over the type of an accepted message. -/
def dispatch (env : Env) (s : Server) (m : Message) : Except Fault (Int × Server) :=
  if m.type = MsgType.discover then messageDhcpdiscoverHandle env s m
  else if m.type = MsgType.request then messageDhcprequestHandle env s m
  else if m.type = MsgType.decline then return messageDhcpdeclineHandle s m
  else if m.type = MsgType.inform then messageDhcpinformHandle env s m
  else if m.type = MsgType.release then return messageDhcpreleaseHandle env s m
  else return (0, s)

end DHCPServer
