import DHCPServer.Server.Arguments
import DHCPServer.Server.Serve

namespace DHCPServer

section Loading

variable (cjson : JsonCodec) (fs : FileSystem)

/-- `config_load_json_file` -/
def configLoadJsonFile (path : CString) : Option Json := (fs.read path).bind cjson.parse

/-- `cJSON_IsBool` and `cJSON_IsTrue`, as the byte of a `bool`. -/
def boolByte : Json → Option UInt8
  | .bool b => some (if b then 1 else 0)
  | _ => none

/-- The bytes `config_load_dhcp_options` makes of a value. -/
def loadOptionBytes (type : DhcpOptionType) (value : Json) : Option (List UInt8) :=
  match type with
  | .ip => do
    let ip := ipv4AddressToUint32 (← value.getStringValue)
    if ip = 0 then none else return le32Bytes ip
  | .numeric => do
    let n ← value.getNumberValue
    return le32Bytes (numberToUInt32 (some n))
  | .bin | .string => value.getStringValue.map asciiBytes
  | .bool => (boolByte value).map fun b => [b]

/-- One pass of the loop of `config_load_dhcp_options`: whether it goes on, and the options. -/
def loadDhcpOption (dest : List DhcpOption) (opt : Json) : Bool × List DhcpOption :=
  let tag := numberToUInt8 (numberMember opt "tag".toList)
  let len := numberToUInt8 (numberMember opt "lenght".toList)
  match opt.getObjectItem "value".toList with
  | none => (true, dest)
  | some value =>
    if tag = 0 ∨ len = 0 then (true, dest)
    else
      match loadOptionBytes (dhcpOptionTagToType tag) value with
      | none => (false, dest)
      | some bytes => (true, dhcpOptionAdd dest (dhcpOptionNewValues tag len bytes))

def loadDhcpOptions : List DhcpOption → List Json → Bool × List DhcpOption
  | dest, [] => (true, dest)
  | dest, opt :: opts =>
    match loadDhcpOption dest opt with
    | (true, dest) => loadDhcpOptions dest opts
    | (false, dest) => (false, dest)

/-- `config_load_dhcp_options`; `true` stands for the return value 0. -/
def configLoadDhcpOptions (dest : List DhcpOption) (options : Option Json) :
    Bool × List DhcpOption :=
  match options with
  | none => (true, dest)
  | some options => loadDhcpOptions dest options.children

/-- The variables of `config_load_pools_config` that keep their values from pool to pool. -/
structure PoolVariables where
  poolName : Option CString
  poolStart : UInt32
  poolEnd : UInt32
  poolMask : UInt32

/-- An address of a pool object, the one of the pools before if it is missing. -/
def loadPoolAddress (object : Option Json) (old : UInt32) : Except Fault UInt32 :=
  match object with
  | none => .ok old
  | some object => do
    let text ← deref object.getStringValue
    return ipv4AddressToUint32 text

/-- The attributes of a pool object. The name is there if none of them is missing. -/
def loadPoolAttributes (v : PoolVariables) (pool : Json) :
    Except Fault (Option CString × PoolVariables) := do
  let v :=
    match pool.getObjectItem "name".toList with
    | some object => { v with poolName := object.getStringValue }
    | none => v
  match v.poolName with
  | none => return (none, v)
  | some name =>
    let start ← loadPoolAddress (pool.getObjectItem "start".toList) v.poolStart
    let v := { v with poolStart := start }
    if start = 0 then return (none, v)
    let «end» ← loadPoolAddress (pool.getObjectItem "end".toList) v.poolEnd
    let v := { v with poolEnd := «end» }
    if «end» = 0 then return (none, v)
    let mask ← loadPoolAddress (pool.getObjectItem "subnet".toList) v.poolMask
    let v := { v with poolMask := mask }
    if mask = 0 then return (none, v)
    return (some name, v)

/-- One pass of the loop of `config_load_pools_config`. -/
def loadPoolObject (st : PoolVariables × AddressAllocator) (pool : Json) :
    Except Fault (PoolVariables × AddressAllocator) := do
  let (v, allocator) := st
  let (name, v) ← loadPoolAttributes v pool
  match name.bind fun name => addressPoolNew name v.poolStart v.poolEnd v.poolMask with
  | none => return (v, allocator)
  | some newPool =>
    let (loaded, options) := configLoadDhcpOptions newPool.dhcpOptionOverride
      (pool.getObjectItem "options".toList)
    if loaded then
      return (v, (allocatorAddPool allocator { newPool with dhcpOptionOverride := options }).2)
    else return (v, allocator)

/-- `config_load_pools_config`, which always returns 0. -/
def configLoadPoolsConfig (allocator : AddressAllocator) (poolsConfig : Option Json) :
    Except Fault AddressAllocator :=
  match poolsConfig with
  | none => .ok allocator
  | some poolsConfig => do
    let (_, allocator) ← poolsConfig.children.foldlM loadPoolObject (⟨none, 0, 0, 0⟩, allocator)
    return allocator

/-- A switch of the security section, loaded unless a flag has set it. -/
def loadSwitch (securityConfig : Option Json) (key : CString) (old : UInt8) : UInt8 :=
  if old = configUntouched then
    match securityConfig.bind (Json.getObjectItem key) with
    | some object => if isTrue object then 1 else 0
    | none => 1
  else old

def configLoadSecurityConfig (securityConfig : Option Json) (s : ServerSetup) : ServerSetup :=
  { s with
    aclEnable := loadSwitch securityConfig "acl_enable".toList s.aclEnable
    aclBlacklist := loadSwitch securityConfig "acl_blacklist".toList s.aclBlacklist
    dynamicAclEnable := loadSwitch securityConfig "dynamic_acl".toList s.dynamicAclEnable }

/-- What `config_load_configuration` loads behind the server section. -/
def configLoadSections (config : Option Json) (s : ServerSetup) :
    Except Fault (Bool × ServerSetup) := do
  let allocator ← configLoadPoolsConfig s.allocator (config.bind (Json.getObjectItem "pools".toList))
  let (loaded, options) := configLoadDhcpOptions allocator.defaultOptions
    (config.bind (Json.getObjectItem "options".toList))
  let s := s.setAllocator (allocator.setOptions options)
  if loaded then
    return (true, configLoadSecurityConfig (config.bind (Json.getObjectItem "security".toList)) s)
  else return (false, s)

/-- The file that `config_load_configuration` reads. -/
def configFile (path : CString) : Option Json :=
  configLoadJsonFile cjson fs (if path = [] then configDefaultPath else path)

/-- `config_load_configuration`; `true` stands for the return value 0. -/
def configLoadConfiguration (ifap : List IfAddr) (s : ServerSetup) :
    Except Fault (Bool × ServerSetup) := do
  let config := configFile cjson fs s.configPath
  if config.isNone ∧ s.config.interface = [] then return (false, s)
  let (loaded, fields) ←
    configLoadServerConfig ifap (config.bind (Json.getObjectItem "server".toList)) s.config
  if loaded then configLoadSections config (s.setConfig fields)
  else return (false, s.setConfig fields)

/-- The interface of a server section, as far as it is copied. -/
def fileInterface (serverConfig : Option Json) : Option CString :=
  ((serverConfig.bind (Json.getObjectItem "interface".toList)).bind Json.getStringValue).map
    (·.take 255)

end Loading

section Addresses

variable {cjson : JsonCodec} {fs : FileSystem} {ifap : List IfAddr} {s final : ServerSetup}
  {serverConfig config : Option Json} {c c' : ServerFields}

/-- Without a name from the arguments the file names the interface, whose addresses are looked
for. -/
theorem configLoadServerConfig_named {name : CString} (hc : c.interface = [])
    (hname : fileInterface serverConfig = some name) :
    configLoadServerConfig ifap serverConfig c =
      .ok (if (configGetInterfaceInfo ifap { c with interface := name }).1 then
        (true, loadServerNumbers serverConfig
          (configGetInterfaceInfo ifap { c with interface := name }).2)
      else (false, (configGetInterfaceInfo ifap { c with interface := name }).2)) := by
  obtain ⟨text, htext, rfl⟩ := Option.map_eq_some_iff.mp hname
  obtain ⟨object, hobject, htext⟩ := Option.bind_eq_some_iff.mp htext
  rw [configLoadServerConfig, if_pos hc, hobject]
  dsimp only
  rw [htext]
  rfl

theorem configLoadServerConfig_unnamed (hc : c.interface = [])
    (hname : fileInterface serverConfig = none) :
    configLoadServerConfig ifap serverConfig c ≠ .ok (true, c') := by
  rw [configLoadServerConfig, if_pos hc]
  cases hobject : serverConfig.bind (Json.getObjectItem "interface".toList) with
  | none =>
    intro h
    cases h
  | some object =>
    have htext : object.getStringValue = none := by
      rw [fileInterface, hobject] at hname
      exact Option.map_eq_none_iff.mp hname
    dsimp only
    rw [htext]
    intro h
    cases h

/-- The server section sets the addresses where it sets the interface, and only there. -/
theorem configLoadServerConfig_ok :
    configLoadServerConfig ifap serverConfig c = .ok (true, c') ↔
      (c.interface ≠ [] ∧ c' = loadServerNumbers serverConfig c) ∨
      (c.interface = [] ∧ ∃ name, fileInterface serverConfig = some name ∧
        (interfaceAddresses name ifap c.addresses).1 ≠ 0 ∧
        (interfaceAddresses name ifap c.addresses).2 ≠ 0 ∧
        c' = loadServerNumbers serverConfig
          (ServerFields.setAddresses { c with interface := name }
            (interfaceAddresses name ifap c.addresses))) := by
  by_cases hc : c.interface = []
  · cases hname : fileInterface serverConfig with
    | none =>
      refine iff_of_false (configLoadServerConfig_unnamed hc hname) ?_
      rintro (⟨hne, -⟩ | ⟨-, name, hsome, -⟩)
      · exact hne hc
      · cases hsome
    | some name =>
      have hkept : ServerFields.addresses { c with interface := name } = c.addresses := rfl
      rw [configLoadServerConfig_named hc hname, configGetInterfaceInfo_eq, hkept]
      by_cases hfound : (interfaceAddresses name ifap c.addresses).1 ≠ 0 ∧
          (interfaceAddresses name ifap c.addresses).2 ≠ 0
      · rw [decide_eq_true hfound, if_pos rfl]
        constructor
        · intro h
          cases h
          exact .inr ⟨hc, name, rfl, hfound.1, hfound.2, rfl⟩
        · rintro (⟨hne, -⟩ | ⟨-, name', hsome, -, -, rfl⟩)
          · exact absurd hc hne
          · obtain rfl := Option.some.inj hsome
            rfl
      · rw [decide_eq_false hfound, if_neg Bool.false_ne_true]
        refine iff_of_false (by simp) ?_
        rintro (⟨hne, -⟩ | ⟨-, name', hsome, hip, hbroadcast, -⟩)
        · exact hne hc
        · obtain rfl := Option.some.inj hsome
          exact hfound ⟨hip, hbroadcast⟩
  · rw [configLoadServerConfig, if_neg hc]
    simp [hc, eq_comm]

/-- The sections behind the server section do not look at what it has loaded. -/
theorem configLoadSections_setConfig :
    configLoadSections config (s.setConfig c) =
      (configLoadSections config s).map (Prod.map id (·.setConfig c)) := by
  rw [configLoadSections, configLoadSections]
  change configLoadPoolsConfig s.allocator _ >>= _ = _
  cases configLoadPoolsConfig s.allocator (config.bind (Json.getObjectItem "pools".toList)) with
  | error f => rfl
  | ok allocator =>
    dsimp only [bind, Except.bind]
    split
    · rfl
    · rfl

theorem configLoadConfiguration_ok :
    configLoadConfiguration cjson fs ifap s = .ok (true, final) ↔
      ∃ fields, configLoadServerConfig ifap ((configFile cjson fs s.configPath).bind
          (Json.getObjectItem "server".toList)) s.config = .ok (true, fields) ∧
        configLoadSections (configFile cjson fs s.configPath) (s.setConfig fields) =
          .ok (true, final) := by
  rw [configLoadConfiguration]
  by_cases hnone : (configFile cjson fs s.configPath).isNone ∧ s.config.interface = []
  · have hfile := Option.isNone_iff_eq_none.mp hnone.1
    dsimp only
    rw [if_pos hnone, hfile]
    constructor
    · intro h
      cases h
    · rintro ⟨fields, hserver, -⟩
      rcases configLoadServerConfig_ok.mp hserver with ⟨hne, -⟩ | ⟨-, name, hname, -⟩
      · exact absurd hnone.2 hne
      · cases hname
  · dsimp only
    rw [if_neg hnone]
    constructor
    · intro h
      obtain ⟨⟨loaded, fields⟩, hserver, hrest⟩ := seq_ok.mp h
      cases loaded with
      | true => exact ⟨fields, hserver, hrest⟩
      | false => cases hrest
    · rintro ⟨fields, hserver, hrest⟩
      exact seq_ok.mpr ⟨(true, fields), hserver, hrest⟩

end Addresses

end DHCPServer
