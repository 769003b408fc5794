import DHCPServer.Gui.Inspect
import DHCPServer.Lease.File

namespace DHCPServer

/-- `std::string::find_last_of` -/
def findLastOf (c : Char) : CString → Option Nat
  | [] => none
  | d :: s =>
    match findLastOf c s with
    | some i => some (i + 1)
    | none => if d = c then some 0 else none

/-- `leases_path` -/
def leasesPath : CString := "/etc/dhcp/lease/".toList

/-- The texts of `load_lease_details`. -/
structure LeaseDetails where
  poolName : CString
  address : CString
  subnet : CString
  xid : CString
  start : CString
  expire : CString
  mac : CString
  deriving DecidableEq

/-- What `TabLease` keeps; `none` is the value -1 of the indices that have been loaded last. -/
structure TabLease where
  poolSelected : Nat
  poolSelectedLast : Option Nat
  leaseSelected : Nat
  leaseSelectedLast : Option Nat
  pools : List CString
  leasedAddresses : List CString
  leases : List Lease
  details : LeaseDetails

def noLeaseDetails : LeaseDetails := ⟨[], [], [], [], [], [], []⟩

def tabLeaseNew : TabLease where
  poolSelected := 0
  poolSelectedLast := none
  leaseSelected := 0
  leaseSelectedLast := none
  pools := []
  leasedAddresses := []
  leases := []
  details := noLeaseDetails

/-- The entry for a path: its name up to the last dot, and a blank. Without a dot behind the prefix
the length wraps around and the name is taken to its end. -/
def poolEntry (path : CString) : Except ActionError CString := do
  let length := match findLastOf '.' path with
    | some lastDot => if leasesPath.length ≤ lastDot then lastDot - leasesPath.length
        else path.length
    | none => path.length
  let name ← substr path leasesPath.length length
  return name ++ " ".toList

/-- One pass of the loop of `parse_json_leases`. The array of the hardware address is the one the
element before was read into. -/
def leaseElement (poolName : CString) (mac : Mac) (element : Json) :
    Except Fault (Lease × CString) := do
  let address ← deref (stringMember element "address".toList)
  let subnet ← deref (stringMember element "subnet".toList)
  let macText ← deref (stringMember element "client_mac_address".toList)
  return (⟨{
    address := ipv4AddressToUint32 address
    subnet := ipv4AddressToUint32 subnet
    xid := numberToUInt32 (numberMember element "xid".toList)
    leaseStart := numberToUInt32 (numberMember element "lease_start".toList)
    leaseExpire := numberToUInt32 (numberMember element "lease_expire".toList)
    flags := numberToUInt8 (numberMember element "flags".toList)
    clientMacAddress := macToUint8Array macText mac }, poolName⟩, address)

/-- The leases that the loop reads, and the texts of their addresses. -/
def leaseElements (poolName : CString) :
    Mac → List Json → Except Fault (List Lease × List CString)
  | _, [] => return ([], [])
  | mac, element :: elements => do
    let (lease, address) ← leaseElement poolName mac element
    let (leases, addresses) ← leaseElements poolName lease.record.clientMacAddress elements
    return (lease :: leases, address :: addresses)

namespace TabLease

/-- `load_pools`, with the paths of the directory in the order in which it is iterated. -/
def loadPools (directory : List CString) (t : TabLease) : Except ActionError TabLease := do
  let pools ← directory.mapM poolEntry
  return { t with pools := pools }

def parseJsonLeases (json : Json) (poolName : CString) (t : TabLease) :
    Except Fault (Int × TabLease) :=
  let t := { t with leases := [], leasedAddresses := [] }
  match json.getObjectItem "leases".toList with
  | some (.array elements) => do
    let (leases, addresses) ← leaseElements poolName (Buffer.zero 6) elements
    return (0, { t with leases := leases, leasedAddresses := addresses })
  | _ => return (-1, t)

/-- `load_leases`. The text is parsed without a NUL behind it: up to the next one in memory. -/
def loadLeases (cjson : JsonCodec) (files : FileSystem) (behind : CString) (t : TabLease) :
    Except ActionError (Int × TabLease) :=
  if t.poolSelected = t.poolSelectedLast then return (0, t)
  else if t.pools.length = 0 then return (-1, t)
  else
    match t.pools[t.poolSelected]? with
    | none => .error (.fault .outOfBounds)
    | some pool =>
      match files.read (leasesPath ++ pool.dropLast ++ ".lease".toList) with
      | none => return (-1, t)
      | some file =>
        match cjson.parse (file ++ behind) with
        | none => return (-1, t)
        | some json => do
          let (rv, t) ← (t.parseJsonLeases json pool).mapError .fault
          if rv ≠ 0 then return (-1, t)
          else
            return (0, { t with
              poolSelectedLast := some t.poolSelected
              leaseSelected := 0
              leaseSelectedLast := none })

/-- The texts that `load_lease_details` makes of a lease. -/
def leaseDetails (lease : Lease) : LeaseDetails where
  poolName := lease.poolName
  address := uint32ToIpv4Address lease.record.address
  subnet := uint32ToIpv4Address lease.record.subnet
  xid := "0x".toList ++ hexPadded 8 lease.record.xid.toNat
  start := putTime (gmtime lease.record.leaseStart.toNat)
  expire := putTime (gmtime lease.record.leaseExpire.toNat)
  mac := hexBytes lease.record.clientMacAddress.data

def loadLeaseDetails (t : TabLease) : Except ActionError TabLease :=
  if t.leaseSelected = t.leaseSelectedLast then return t
  else if t.leases.length = 0 then return { t with details := noLeaseDetails }
  else
    match t.leases[t.leaseSelected]? with
    | none => .error (.fault .outOfBounds)
    | some lease =>
      return { t with
        details := leaseDetails lease
        leaseSelectedLast := some t.leaseSelected }

/-- `TabLease::refresh` -/
def refresh (cjson : JsonCodec) (directory : List CString) (files : FileSystem)
    (behind : CString) (t : TabLease) : Except ActionError TabLease := do
  let t ← t.loadPools directory
  let (_, t) ← t.loadLeases cjson files behind
  t.loadLeaseDetails

end TabLease

section Texts

theorem findLastOf_none {c : Char} {s : CString} (h : c ∉ s) : findLastOf c s = none := by
  induction s with
  | nil => rfl
  | cons d s ih =>
    rw [List.mem_cons, not_or] at h
    rw [findLastOf, ih h.2]
    exact if_neg (Ne.symm h.1)

/-- The last occurrence is the one with none behind it. -/
theorem findLastOf_append {c : Char} {s rest : CString} (h : c ∉ rest) :
    findLastOf c (s ++ c :: rest) = some s.length := by
  induction s with
  | nil => simp [findLastOf, findLastOf_none h]
  | cons d s ih => simp [findLastOf, ih]

end Texts

end DHCPServer
