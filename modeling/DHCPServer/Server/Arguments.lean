import DHCPServer.Framework.Getopt
import DHCPServer.Lease.File
import DHCPServer.Server.Config

namespace DHCPServer

/-- `enum allocator_status` as a number. -/
def AllocatorStatus.code : AllocatorStatus → Int
  | .ok => 0
  | .error => -1
  | .addrReserved => -2
  | .addrInUse => -3
  | .addrNotInUse => -4
  | .poolDuplicite => -5
  | .optionDuplicite => -6
  | .optionInvalid => -7
  | .poolDepleted => -8
  | .cannotCreateLease => -9

def addressPoolNewStr (name startAddress endAddress subnetMask : CString) : Option AddressPool :=
  addressPoolNew name (ipv4AddressToUint32 startAddress) (ipv4AddressToUint32 endAddress)
    (ipv4AddressToUint32 subnetMask)

/-- The part of `dhcp_server_t` that the arguments and the configuration file fill. -/
structure ServerSetup where
  configPath : CString
  config : ServerFields
  aclEnable : UInt8
  dynamicAclEnable : UInt8
  aclBlacklist : UInt8
  allocator : AddressAllocator

namespace ServerSetup

def setConfig (s : ServerSetup) (config : ServerFields) : ServerSetup := { s with config := config }

def setAllocator (s : ServerSetup) (allocator : AddressAllocator) : ServerSetup :=
  { s with allocator := allocator }

end ServerSetup

/-- `CONFIG_DEFAULT_PATH` -/
def configDefaultPath : CString := "/etc/dhcp/config.json".toList

/-- `CONFIG_DEFAULT_POOL_NAME` -/
def configDefaultPoolName : CString := "Pool".toList

/-- The server in `main` before the arguments are parsed. -/
def initialSetup : ServerSetup :=
  ⟨configDefaultPath, ⟨[], 0, 0, 0, 0, 0, 0, 0, 0, 0⟩, 0, 0, 0, addressAllocatorNew⟩

/-- What `getopt_long` returns, with its `optarg`. A short `-c` has no argument. -/
inductive Flag where
  | version
  | help
  | config (optarg : Option CString)
  | defaultConfiguration (optarg : CString)
  | interface (optarg : CString)
  | tickDelay (optarg : CString)
  | cacheSize (optarg : CString)
  | transactionDuration (optarg : CString)
  | leaseExpirationCheck (optarg : CString)
  | leaseTime (optarg : CString)
  | log (optarg : CString)
  | aclDisable
  | aclWhitelistMode
  | dynamicAclDisable
  | dbDisable
  | pool (optarg : CString)
  | option (optarg : CString)
  | unknown
  deriving DecidableEq

/-- `long_options` -/
def longOptions : List (CString × OptionForm Flag) := [
  ("version".toList, .noArgument .version),
  ("help".toList, .noArgument .help),
  ("config".toList, .requiredArgument fun optarg => .config (some optarg)),
  ("default-configuration".toList, .requiredArgument .defaultConfiguration),
  ("interface".toList, .requiredArgument .interface),
  ("tick-delay".toList, .requiredArgument .tickDelay),
  ("cache-size".toList, .requiredArgument .cacheSize),
  ("transaction-duration".toList, .requiredArgument .transactionDuration),
  ("lease-expiration-check".toList, .requiredArgument .leaseExpirationCheck),
  ("lease-time".toList, .requiredArgument .leaseTime),
  ("log".toList, .requiredArgument .log),
  ("acl-disable".toList, .noArgument .aclDisable),
  ("acl-whitelist-mode".toList, .noArgument .aclWhitelistMode),
  ("dynamic-acl-disable".toList, .noArgument .dynamicAclDisable),
  ("db-disable".toList, .noArgument .dbDisable),
  ("pool".toList, .requiredArgument .pool),
  ("option".toList, .requiredArgument .option)]

/-- `vhci:d:s:t:e:l:p:o:` -/
def shortOptions : Char → Option (OptionForm Flag)
  | 'v' => some (.noArgument .version)
  | 'h' => some (.noArgument .help)
  | 'c' => some (.noArgument (.config none))
  | 'i' => some (.requiredArgument .interface)
  | 'd' => some (.requiredArgument .tickDelay)
  | 's' => some (.requiredArgument .cacheSize)
  | 't' => some (.requiredArgument .transactionDuration)
  | 'e' => some (.requiredArgument .leaseExpirationCheck)
  | 'l' => some (.requiredArgument .leaseTime)
  | 'p' => some (.requiredArgument .pool)
  | 'o' => some (.requiredArgument .option)
  | _ => none

/-- The flags of the command line, behind the name of the program. -/
def flagsOf (argv : List CString) : List Flag :=
  getoptLong longOptions shortOptions .unknown argv.tail

/-- What `config_load_defaults` sets before it adds the pool. -/
def defaultSettings (optarg : CString) (s : ServerSetup) : ServerSetup where
  configPath := configDefaultPath
  config := { s.config with
    interface := optarg
    tickDelay := 1000
    cacheSize := 25
    transDuration := 60
    leaseExpirationCheck := 60
    logVerbosity := 4
    leaseTime := 43200
    dbEnable := 1 }
  aclEnable := 0
  dynamicAclEnable := 1
  aclBlacklist := 0
  allocator := s.allocator.setOptions (dhcpOptionAdd s.allocator.defaultOptions
    (dhcpOptionNewValues Tag.ipAddressLeaseTime 4 (le32Bytes 43200)))

/-- `config_load_defaults`; `true` stands for the return value 0. -/
def configLoadDefaults (ifap : List IfAddr) (optarg : CString) (s : ServerSetup) :
    Bool × ServerSetup :=
  let s := defaultSettings optarg s
  match addressPoolNewStr configDefaultPoolName "192.168.1.1".toList "192.168.1.100".toList
      "255.255.255.0".toList with
  | none => (false, s)
  | some pool =>
    match allocatorAddPool s.allocator pool with
    | (.ok, allocator) =>
      let (found, config) := configGetInterfaceInfo ifap s.config
      (found, (s.setAllocator allocator).setConfig config)
    | (_, allocator) => (false, s.setAllocator allocator)

/-- A conversion of `sscanf` that takes at least one and at most `width` characters up to one of
the characters `stop`. -/
def scanUntil (stop : Char → Bool) (width : Nat) (s : CString) : Option (CString × CString) :=
  let field := (s.takeWhile (!stop ·)).take width
  if field = [] then none else some (field, s.drop field.length)

/-- `%hhu:%hhu:%[^\n]` -/
def scanOption (s : CString) : Option (UInt8 × UInt8 × CString) := do
  let (tag, s) ← scanUnsigned s
  let s ← scanChar ':' s
  let (lenght, s) ← scanUnsigned s
  let s ← scanChar ':' s
  let (value, _) ← scanUntil (· == '\n') s.length s
  return (tag.toUInt8, lenght.toUInt8, value)

/-- The bytes `config_add_dhcp_option` makes of the text of a value. -/
def optionBytes (type : DhcpOptionType) (value : CString) : Option (List UInt8) :=
  match type with
  | .numeric => (scanUnsigned value).map fun r => le32Bytes r.1
  | .ip =>
    let ip := ipv4AddressToUint32 value
    if ip = 0 then none else some (le32Bytes ip)
  | .bool =>
    match scanUnsigned value with
    | none => none
    | some (n, _) => if n.toUInt8 = 0 ∨ n.toUInt8 = 1 then some [n.toUInt8] else none
  | .string => some (asciiBytes value)
  | .bin => none

/-- `config_add_dhcp_option` -/
def configAddDhcpOption (optarg : CString) (s : ServerSetup) : Int × ServerSetup :=
  match scanOption optarg with
  | none => (-1, s)
  | some (tag, lenght, value) =>
    match optionBytes (dhcpOptionTagToType tag) value with
    | none => (-1, s)
    | some bytes =>
      let o : DhcpOption :=
        ⟨dhcpOptionTagToType tag, tag, lenght, (Buffer.zero optionMaxLenght).write 0 bytes⟩
      (0, s.setAllocator (s.allocator.setOptions (dhcpOptionAdd s.allocator.defaultOptions o)))

/-- `%15[^:]:%15[^:]:%15s` -/
def scanPool (s : CString) : Option (CString × CString × CString) := do
  let (start, s) ← scanUntil (· == ':') 15 s
  let s ← scanChar ':' s
  let («end», s) ← scanUntil (· == ':') 15 s
  let s ← scanChar ':' s
  let (mask, _) ← scanUntil isSpace 15 (skipSpace s)
  return (start, «end», mask)

/-- `config_add_pool` -/
def configAddPool (optarg : CString) (s : ServerSetup) : Int × ServerSetup :=
  match scanPool optarg with
  | none => (-1, s)
  | some (start, «end», mask) =>
    match addressPoolNewStr "pool".toList start «end» mask with
    | none => (-1, s)
    | some pool =>
      let (status, allocator) := allocatorAddPool s.allocator pool
      (status.code, s.setAllocator allocator)

/-- A number that `sscanf` stores from the argument of a flag, -1 if there is none. -/
def setNumber (optarg : CString) (s : ServerSetup) (set : UInt32 → ServerFields) :
    Int × ServerSetup :=
  match scanUnsigned optarg with
  | none => (-1, s)
  | some (n, _) => (0, s.setConfig (set n))

/-- The switch of `config_parse_arguments` with the value of `rv` after it. What
`config_load_defaults` returns is not looked at. -/
def configParseFlag (ifap : List IfAddr) (argc : Nat) (s : ServerSetup) :
    Flag → Except Fault (Int × ServerSetup)
  | .version | .help => .ok (1, s)
  | .config optarg => do
    let path ← deref optarg
    return (0, { s with configPath := path.take 4096 })
  | .interface optarg => .ok (0, s.setConfig { s.config with interface := optarg.take 256 })
  | .tickDelay optarg => .ok (setNumber optarg s fun n => { s.config with tickDelay := n })
  | .cacheSize optarg => .ok (setNumber optarg s fun n => { s.config with cacheSize := n })
  | .transactionDuration optarg =>
    .ok (setNumber optarg s fun n => { s.config with transDuration := n })
  | .leaseExpirationCheck optarg =>
    .ok (setNumber optarg s fun n => { s.config with leaseExpirationCheck := n })
  | .leaseTime optarg => .ok (setNumber optarg s fun n => { s.config with leaseTime := n })
  | .pool optarg => .ok (configAddPool optarg s)
  | .option optarg => .ok (configAddDhcpOption optarg s)
  | .defaultConfiguration optarg =>
    if argc ≠ 3 then .ok (-1, s) else .ok (0, (configLoadDefaults ifap optarg s).2)
  | .log optarg => .ok (setNumber optarg s fun n => { s.config with logVerbosity := n.toUInt8 })
  | .aclDisable => .ok (0, { s with aclEnable := 0 })
  | .aclWhitelistMode => .ok (0, { s with aclBlacklist := 0 })
  | .dynamicAclDisable => .ok (0, { s with dynamicAclEnable := 0 })
  | .dbDisable => .ok (0, s.setConfig { s.config with dbEnable := 0 })
  | .unknown => .ok (-1, s)

/-- The loop of `config_parse_arguments` over what `getopt_long` returns. -/
def configParseFlags (ifap : List IfAddr) (argc : Nat) :
    List Flag → ServerSetup → Except Fault (Int × ServerSetup)
  | [], s => .ok (0, s)
  | flag :: flags, s => do
    let (rv, s) ← configParseFlag ifap argc s flag
    if rv = 0 then configParseFlags ifap argc flags s else return (rv, s)

def configParseArguments (ifap : List IfAddr) (argv : List CString) (s : ServerSetup) :
    Except Fault (Int × ServerSetup) :=
  configParseFlags ifap argv.length (flagsOf argv) { s with
    config := { s.config with dbEnable := configUntouched }
    aclEnable := configUntouched
    dynamicAclEnable := configUntouched
    aclBlacklist := configUntouched }

namespace ServerSetup

def setAddresses (s : ServerSetup) (a : UInt32 × UInt32) : ServerSetup :=
  s.setConfig (s.config.setAddresses a)

end ServerSetup

/-- The interface name after a flag. -/
def interfaceAfter (name : CString) : Flag → CString
  | .interface optarg => optarg.take 256
  | .defaultConfiguration optarg => optarg
  | _ => name

/-- The path of the configuration file after a flag. -/
def pathAfter (path : CString) : Flag → CString
  | .config (some optarg) => optarg.take 4096
  | .defaultConfiguration _ => configDefaultPath
  | _ => path

/-- The interface that a flag asks the default configuration for. -/
def defaultArgument : Flag → Option CString
  | .defaultConfiguration optarg => some optarg
  | _ => none

/-- The addresses after looking for those of an interface, if there is one to look for. -/
def resolveAddresses (ifap : List IfAddr) (a : UInt32 × UInt32) : Option CString → UInt32 × UInt32
  | none => a
  | some name => interfaceAddresses name ifap a

def defaultPool (a : AddressAllocator) : Option AddressPool :=
  allocatorGetPoolByName a configDefaultPoolName

section Flags

variable {ifap ifap' : List IfAddr} {argc : Nat} {s s' : ServerSetup} {flag : Flag}
  {a : UInt32 × UInt32}

/-- A pool of another name does not become the default pool. -/
theorem defaultPool_addPool {allocator : AddressAllocator} {pool : AddressPool}
    (hname : pool.name ≠ configDefaultPoolName) :
    defaultPool (allocatorAddPool allocator pool).2 = defaultPool allocator := by
  rcases AddressAllocator.addPool_pools allocator pool with heq | ⟨-, heq⟩
  · rw [defaultPool, allocatorGetPoolByName, heq]
    rfl
  · rw [defaultPool, allocatorGetPoolByName, heq, List.find?_append]
    simp [hname, defaultPool, allocatorGetPoolByName]

theorem addressPoolNewStr_name {name start «end» mask : CString} {pool : AddressPool}
    (h : addressPoolNewStr name start «end» mask = some pool) : pool.name = name :=
  congrArg Prod.fst (AddressPool.addressPoolNew_eq_some h).1

theorem setNumber_setAddresses (optarg : CString) (set : ServerFields → UInt32 → ServerFields)
    (hset : ∀ n, set (s.config.setAddresses a) n = (set s.config n).setAddresses a) :
    setNumber optarg (s.setAddresses a) (set (s.setAddresses a).config) =
      Prod.map id (·.setAddresses a) (setNumber optarg s (set s.config)) := by
  rw [setNumber, setNumber]
  cases scanUnsigned optarg with
  | none => rfl
  | some r => exact congrArg (fun c => ((0 : Int), s.setConfig c)) (hset r.1)

theorem configAddPool_setAddresses (optarg : CString) :
    configAddPool optarg (s.setAddresses a) =
      Prod.map id (·.setAddresses a) (configAddPool optarg s) := by
  rw [configAddPool, configAddPool]
  cases scanPool optarg with
  | none => rfl
  | some r =>
    dsimp only
    cases addressPoolNewStr "pool".toList r.1 r.2.1 r.2.2 <;> rfl

theorem configAddDhcpOption_setAddresses (optarg : CString) :
    configAddDhcpOption optarg (s.setAddresses a) =
      Prod.map id (·.setAddresses a) (configAddDhcpOption optarg s) := by
  rw [configAddDhcpOption, configAddDhcpOption]
  cases scanOption optarg with
  | none => rfl
  | some r =>
    dsimp only
    cases optionBytes (dhcpOptionTagToType r.1) r.2.2 <;> rfl

/-- Of the flags only the default configuration looks at the interfaces and sets addresses. -/
theorem configParseFlag_setAddresses (hflag : ∀ optarg, flag ≠ .defaultConfiguration optarg) :
    configParseFlag ifap' argc (s.setAddresses a) flag =
      (configParseFlag ifap argc s flag).map (Prod.map id (·.setAddresses a)) := by
  cases flag with
  | defaultConfiguration optarg => exact absurd rfl (hflag optarg)
  | config optarg => cases optarg <;> rfl
  | tickDelay optarg =>
    exact congrArg Except.ok
      (setNumber_setAddresses optarg (fun c n => { c with tickDelay := n }) fun _ => rfl)
  | cacheSize optarg =>
    exact congrArg Except.ok
      (setNumber_setAddresses optarg (fun c n => { c with cacheSize := n }) fun _ => rfl)
  | transactionDuration optarg =>
    exact congrArg Except.ok
      (setNumber_setAddresses optarg (fun c n => { c with transDuration := n }) fun _ => rfl)
  | leaseExpirationCheck optarg =>
    exact congrArg Except.ok
      (setNumber_setAddresses optarg (fun c n => { c with leaseExpirationCheck := n }) fun _ => rfl)
  | leaseTime optarg =>
    exact congrArg Except.ok
      (setNumber_setAddresses optarg (fun c n => { c with leaseTime := n }) fun _ => rfl)
  | log optarg =>
    exact congrArg Except.ok
      (setNumber_setAddresses optarg (fun c n => { c with logVerbosity := n.toUInt8 }) fun _ => rfl)
  | pool optarg => exact congrArg Except.ok (configAddPool_setAddresses optarg)
  | option optarg => exact congrArg Except.ok (configAddDhcpOption_setAddresses optarg)
  | version | help | interface | aclDisable | aclWhitelistMode | dynamicAclDisable | dbDisable
  | unknown => rfl

theorem setNumber_ok {optarg : CString} {set : UInt32 → ServerFields}
    (h : setNumber optarg s set = (0, s')) : ∃ n, s' = s.setConfig (set n) := by
  rw [setNumber] at h
  cases hscan : scanUnsigned optarg with
  | none => simp [hscan] at h
  | some r =>
    rw [hscan] at h
    exact ⟨r.1, (congrArg Prod.snd h).symm⟩

/-- A pool of the command line is no default pool. -/
theorem configAddPool_ok {optarg : CString} (h : configAddPool optarg s = (0, s')) :
    ∃ allocator, s' = s.setAllocator allocator ∧ defaultPool allocator = defaultPool s.allocator := by
  rw [configAddPool] at h
  split at h
  · simp at h
  split at h
  · simp at h
  · rename_i pool hnew
    have hname : pool.name ≠ configDefaultPoolName := by
      rw [addressPoolNewStr_name hnew]
      decide
    exact ⟨_, (congrArg Prod.snd h).symm, defaultPool_addPool hname⟩

theorem configAddDhcpOption_ok {optarg : CString} (h : configAddDhcpOption optarg s = (0, s')) :
    ∃ options, s' = s.setAllocator (s.allocator.setOptions options) := by
  rw [configAddDhcpOption] at h
  cases hscan : scanOption optarg with
  | none => simp [hscan] at h
  | some r =>
    simp only [hscan] at h
    cases hbytes : optionBytes (dhcpOptionTagToType r.1) r.2.2 with
    | none => simp [hbytes] at h
    | some bytes =>
      rw [hbytes] at h
      exact ⟨_, (congrArg Prod.snd h).symm⟩

/-- What the other flags do to the names and the default pool. -/
theorem configParseFlag_names (hflag : ∀ optarg, flag ≠ .defaultConfiguration optarg)
    (h : configParseFlag ifap argc s flag = .ok (0, s')) :
    s'.configPath = pathAfter s.configPath flag ∧
      s'.config.interface = interfaceAfter s.config.interface flag ∧
      defaultPool s'.allocator = defaultPool s.allocator := by
  cases flag with
  | defaultConfiguration optarg => exact absurd rfl (hflag optarg)
  | config optarg =>
    cases optarg with
    | none => cases h
    | some path =>
      cases h
      exact ⟨rfl, rfl, rfl⟩
  | pool optarg =>
    obtain ⟨allocator, rfl, hpool⟩ := configAddPool_ok (Except.ok.inj h)
    exact ⟨rfl, rfl, hpool⟩
  | option optarg =>
    obtain ⟨options, rfl⟩ := configAddDhcpOption_ok (Except.ok.inj h)
    exact ⟨rfl, rfl, rfl⟩
  | tickDelay | cacheSize | transactionDuration | leaseExpirationCheck | leaseTime | log =>
    obtain ⟨n, rfl⟩ := setNumber_ok (Except.ok.inj h)
    exact ⟨rfl, rfl, rfl⟩
  | interface | aclDisable | aclWhitelistMode | dynamicAclDisable | dbDisable =>
    cases h
    exact ⟨rfl, rfl, rfl⟩
  | version | help | unknown => cases h

/-- The default configuration looks for addresses when it adds its pool. -/
theorem configLoadDefaults_eq (optarg : CString) (s : ServerSetup) :
    ∃ allocator, (defaultPool allocator).isSome ∧ ∀ ifap a,
      (configLoadDefaults ifap optarg (s.setAddresses a)).2 =
        ((defaultSettings optarg s).setAllocator allocator).setAddresses
          (if defaultPool s.allocator = none then interfaceAddresses optarg ifap a else a) := by
  obtain ⟨pool, hnew⟩ : ∃ pool, addressPoolNewStr configDefaultPoolName "192.168.1.1".toList
      "192.168.1.100".toList "255.255.255.0".toList = some pool :=
    Option.isSome_iff_exists.mp (by decide +kernel)
  have hname := addressPoolNewStr_name hnew
  have hget : allocatorGetPoolByName (defaultSettings optarg s).allocator pool.name =
      defaultPool s.allocator := by
    rw [hname]
    rfl
  cases hpool : defaultPool s.allocator with
  | some p =>
    refine ⟨s.allocator.setOptions (defaultSettings optarg s).allocator.defaultOptions,
      Option.isSome_iff_exists.mpr ⟨p, hpool⟩, fun ifap a => ?_⟩
    have hadd : allocatorAddPool (defaultSettings optarg (s.setAddresses a)).allocator pool =
        (.poolDuplicite, (defaultSettings optarg s).allocator) := by
      change allocatorAddPool (defaultSettings optarg s).allocator pool = _
      rw [allocatorAddPool, hget, hpool]
    rw [configLoadDefaults, hnew, if_neg (by simp)]
    dsimp only
    rw [hadd]
    rfl
  | none =>
    refine ⟨(allocatorAddPool (defaultSettings optarg s).allocator pool).2, ?_, fun ifap a => ?_⟩
    · rw [allocatorAddPool, hget, hpool, defaultPool, allocatorGetPoolByName]
      simp [AddressAllocator.setPools, hname]
    · have hadd : allocatorAddPool (defaultSettings optarg (s.setAddresses a)).allocator pool =
          (.ok, (allocatorAddPool (defaultSettings optarg s).allocator pool).2) := by
        change allocatorAddPool (defaultSettings optarg s).allocator pool = _
        rw [allocatorAddPool, hget, hpool]
      rw [configLoadDefaults, hnew, if_pos rfl]
      dsimp only
      rw [hadd]
      dsimp only
      rw [configGetInterfaceInfo, interfaceLoop_eq]
      rfl

/-- A flag that is accepted is accepted whatever the interfaces are. -/
theorem configParseFlag_ok (h : configParseFlag ifap argc s flag = .ok (0, s')) :
    s'.configPath = pathAfter s.configPath flag ∧
      s'.config.interface = interfaceAfter s.config.interface flag ∧
      ((defaultPool s'.allocator).isSome =
        ((defaultPool s.allocator).isSome || (defaultArgument flag).isSome)) ∧
      ∀ ifap' a, configParseFlag ifap' argc (s.setAddresses a) flag =
        .ok (0, s'.setAddresses (resolveAddresses ifap' a
          (if (defaultPool s.allocator).isSome then none else defaultArgument flag))) := by
  by_cases hflag : ∃ optarg, flag = .defaultConfiguration optarg
  · obtain ⟨optarg, rfl⟩ := hflag
    rw [configParseFlag] at h
    split at h
    · cases h
    rename_i hargc
    obtain ⟨allocator, hpool, hset⟩ := configLoadDefaults_eq optarg s
    have hs' : s' = ((defaultSettings optarg s).setAllocator allocator).setAddresses _ :=
      (congrArg Prod.snd (Except.ok.inj h)).symm.trans (hset ifap s.config.addresses)
    refine ⟨by rw [hs']; rfl, by rw [hs']; rfl, ?_, fun ifap' a => ?_⟩
    · rw [hs', defaultArgument, Option.isSome_some, Bool.or_true]
      exact hpool
    · rw [configParseFlag, if_neg hargc, hset ifap' a, hs', defaultArgument]
      cases defaultPool s.allocator <;> rfl
  · have hother : ∀ optarg, flag ≠ .defaultConfiguration optarg := fun o ho => hflag ⟨o, ho⟩
    have hnone : defaultArgument flag = none := by
      cases flag with
      | defaultConfiguration optarg => exact absurd rfl (hother optarg)
      | _ => rfl
    obtain ⟨hpath, hname, hpool⟩ := configParseFlag_names hother h
    refine ⟨hpath, hname, by rw [hpool, hnone, Option.isSome_none, Bool.or_false], ?_⟩
    intro ifap' a
    rw [hnone, ite_self, @configParseFlag_setAddresses ifap ifap' argc s flag a hother, h]
    rfl

theorem configParseFlags_ok {flags : List Flag}
    (h : configParseFlags ifap argc flags s = .ok (0, s')) :
    s'.configPath = flags.foldl pathAfter s.configPath ∧
      s'.config.interface = flags.foldl interfaceAfter s.config.interface ∧
      ∀ ifap' a, configParseFlags ifap' argc flags (s.setAddresses a) =
        .ok (0, s'.setAddresses (resolveAddresses ifap' a
          (if (defaultPool s.allocator).isSome then none else flags.findSome? defaultArgument))) := by
  induction flags generalizing s with
  | nil =>
    obtain rfl := congrArg Prod.snd (Except.ok.inj h)
    refine ⟨rfl, rfl, fun ifap' a => ?_⟩
    rw [List.findSome?_nil, ite_self]
    rfl
  | cons flag flags ih =>
    obtain ⟨⟨rv, s₁⟩, hstep, hrest⟩ := seq_ok.mp h
    dsimp only at hrest
    split at hrest
    · rename_i hrv
      subst hrv
      obtain ⟨hpath, hname, hpool, hset⟩ := configParseFlag_ok hstep
      obtain ⟨hpath', hname', hset'⟩ := ih hrest
      refine ⟨by rw [hpath', hpath]; rfl, by rw [hname', hname]; rfl, fun ifap' a => ?_⟩
      refine seq_ok.mpr ⟨_, hset ifap' a, ?_⟩
      refine (if_pos rfl).trans ((hset' ifap' _).trans ?_)
      rw [hpool, List.findSome?_cons]
      cases (defaultPool s.allocator).isSome <;> cases defaultArgument flag <;> rfl
    · rename_i hrv
      exact absurd (congrArg Prod.fst (Except.ok.inj hrest)) hrv

end Flags

end DHCPServer
