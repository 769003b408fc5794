import DHCPServer.Properties.InterfaceAddresses

namespace DHCPServer

/-- The numbers of the server section, which flags can set as well. -/
inductive NumberSetting where
  | tickDelay
  | cacheSize
  | transDuration
  | leaseExpirationCheck
  | leaseTime
  | logVerbosity
  deriving DecidableEq

namespace NumberSetting

def get : NumberSetting → ServerFields → UInt32
  | tickDelay, c => c.tickDelay
  | cacheSize, c => c.cacheSize
  | transDuration, c => c.transDuration
  | leaseExpirationCheck, c => c.leaseExpirationCheck
  | leaseTime, c => c.leaseTime
  | logVerbosity, c => c.logVerbosity.toUInt32

def key : NumberSetting → CString
  | tickDelay => "tick_delay".toList
  | cacheSize => "cache_size".toList
  | transDuration => "trans_duration".toList
  | leaseExpirationCheck => "lease_expiration_check".toList
  | leaseTime => "lease_time".toList
  | logVerbosity => "log_verbosity".toList

def default : NumberSetting → UInt32
  | tickDelay => 1000
  | cacheSize => 25
  | transDuration => 60
  | leaseExpirationCheck => 60
  | leaseTime => 43200
  | logVerbosity => 4

/-- What the field holds of a number of the command line. -/
def stored : NumberSetting → UInt32 → UInt32
  | logVerbosity, n => n.toUInt8.toUInt32
  | _, n => n

/-- What the field holds of a number of the file. -/
def loaded : NumberSetting → Option Rat → UInt32
  | logVerbosity, n => (numberToUInt8 n).toUInt32
  | _, n => numberToUInt32 n

/-- The argument of the setting's own flag. -/
def argument : NumberSetting → Flag → Option CString
  | tickDelay, .tickDelay optarg => some optarg
  | cacheSize, .cacheSize optarg => some optarg
  | transDuration, .transactionDuration optarg => some optarg
  | leaseExpirationCheck, .leaseExpirationCheck optarg => some optarg
  | leaseTime, .leaseTime optarg => some optarg
  | logVerbosity, .log optarg => some optarg
  | _, _ => none

/-- The number that a flag gives: its argument's, or the default one. -/
def given (setting : NumberSetting) : Flag → Option UInt32
  | .defaultConfiguration _ => some setting.default
  | flag => ((setting.argument flag).bind scanUnsigned).map fun r => setting.stored r.1

/-- The number of the file, or the default one. -/
def fromFile (setting : NumberSetting) (serverConfig : Option Json) : UInt32 :=
  match serverConfig.bind (Json.getObjectItem setting.key) with
  | some object => setting.loaded object.getNumberValue
  | none => setting.default

/-- The last flag that gives the number goes before the file; a 0 does not. -/
def chosen (setting : NumberSetting) (flags : List Flag) (serverConfig : Option Json) : UInt32 :=
  ((flags.reverse.findSome? setting.given).filter (· ≠ 0)).getD (setting.fromFile serverConfig)

end NumberSetting

/-- What flags can switch off and the file on or off. -/
inductive Switch where
  | dbEnable
  | aclEnable
  | aclBlacklist
  | dynamicAclEnable
  deriving DecidableEq

namespace Switch

def get : Switch → ServerSetup → UInt8
  | dbEnable, s => s.config.dbEnable
  | aclEnable, s => s.aclEnable
  | aclBlacklist, s => s.aclBlacklist
  | dynamicAclEnable, s => s.dynamicAclEnable

/-- The section of the file, and the key in it. -/
def place : Switch → CString × CString
  | dbEnable => ("server".toList, "db_enable".toList)
  | aclEnable => ("security".toList, "acl_enable".toList)
  | aclBlacklist => ("security".toList, "acl_blacklist".toList)
  | dynamicAclEnable => ("security".toList, "dynamic_acl".toList)

/-- The flag that is there to switch it off. -/
def offFlag : Switch → Flag
  | dbEnable => .dbDisable
  | aclEnable => .aclDisable
  | aclBlacklist => .aclWhitelistMode
  | dynamicAclEnable => .dynamicAclDisable

/-- The default configuration has the static list off and the rest of the security on. -/
def inDefaults : Switch → UInt8
  | aclEnable | aclBlacklist => 0
  | dbEnable | dynamicAclEnable => 1

def given (switch : Switch) : Flag → Option UInt8
  | .defaultConfiguration _ => some switch.inDefaults
  | flag => if flag = switch.offFlag then some 0 else none

/-- A switch that the file does not have is on, one that is there and not `true` is off. -/
def fromFile (switch : Switch) (config : Option Json) : UInt8 :=
  match (config.bind (Json.getObjectItem switch.place.1)).bind
      (Json.getObjectItem switch.place.2) with
  | some object => if isTrue object then 1 else 0
  | none => 1

def chosen (switch : Switch) (flags : List Flag) (config : Option Json) : UInt8 :=
  (flags.reverse.findSome? switch.given).getD (switch.fromFile config)

end Switch

section Flags

variable {ifap : List IfAddr} {argc : Nat} {s s' : ServerSetup} {flag : Flag} {flags : List Flag}

theorem setNumber_scanned {optarg : CString} {set : UInt32 → ServerFields}
    (h : setNumber optarg s set = (0, s')) :
    ∃ r, scanUnsigned optarg = some r ∧ s' = s.setConfig (set r.1) := by
  rw [setNumber] at h
  cases hscan : scanUnsigned optarg with
  | none => simp [hscan] at h
  | some r =>
    rw [hscan] at h
    exact ⟨r, rfl, (congrArg Prod.snd h).symm⟩

/-- The default configuration sets the fields, the interface's addresses apart. -/
theorem configLoadDefaults_settings (ifap : List IfAddr) (optarg : CString) (s : ServerSetup) :
    ∃ allocator a, (configLoadDefaults ifap optarg s).2 =
      ((defaultSettings optarg s).setAllocator allocator).setAddresses a := by
  obtain ⟨allocator, -, hset⟩ := configLoadDefaults_eq optarg s
  exact ⟨allocator, _, hset ifap s.config.addresses⟩

/-- An accepted flag sets the numbers it gives and leaves the others. -/
theorem configParseFlag_number (h : configParseFlag ifap argc s flag = .ok (0, s'))
    (setting : NumberSetting) :
    setting.get s'.config = (setting.given flag).getD (setting.get s.config) := by
  cases flag with
  | version | help | unknown => cases h
  | config optarg =>
    cases optarg with
    | none => cases h
    | some path =>
      cases h
      cases setting <;> rfl
  | interface _ | aclDisable | aclWhitelistMode | dynamicAclDisable | dbDisable =>
    cases h
    cases setting <;> rfl
  | defaultConfiguration optarg =>
    rw [configParseFlag] at h
    split at h
    · cases h
    · obtain ⟨allocator, a, hset⟩ := configLoadDefaults_settings ifap optarg s
      rw [hset] at h
      cases h
      cases setting <;> rfl
  | pool optarg =>
    obtain ⟨allocator, rfl, -⟩ := configAddPool_ok (Except.ok.inj h)
    cases setting <;> rfl
  | option optarg =>
    obtain ⟨options, rfl⟩ := configAddDhcpOption_ok (Except.ok.inj h)
    cases setting <;> rfl
  | tickDelay optarg | cacheSize optarg | transactionDuration optarg
  | leaseExpirationCheck optarg | leaseTime optarg | log optarg =>
    obtain ⟨r, hr, rfl⟩ := setNumber_scanned (Except.ok.inj h)
    cases setting <;> simp [NumberSetting.given, NumberSetting.argument, hr, NumberSetting.get,
      NumberSetting.stored, ServerSetup.setConfig]

/-- An accepted flag sets the switches it gives and leaves the others. -/
theorem configParseFlag_switch (h : configParseFlag ifap argc s flag = .ok (0, s'))
    (switch : Switch) : switch.get s' = (switch.given flag).getD (switch.get s) := by
  cases flag with
  | version | help | unknown => cases h
  | config optarg =>
    cases optarg with
    | none => cases h
    | some path =>
      cases h
      cases switch <;> rfl
  | interface _ | aclDisable | aclWhitelistMode | dynamicAclDisable | dbDisable =>
    cases h
    cases switch <;> rfl
  | defaultConfiguration optarg =>
    rw [configParseFlag] at h
    split at h
    · cases h
    · obtain ⟨allocator, a, hset⟩ := configLoadDefaults_settings ifap optarg s
      rw [hset] at h
      cases h
      cases switch <;> rfl
  | pool optarg =>
    obtain ⟨allocator, rfl, -⟩ := configAddPool_ok (Except.ok.inj h)
    cases switch <;> rfl
  | option optarg =>
    obtain ⟨options, rfl⟩ := configAddDhcpOption_ok (Except.ok.inj h)
    cases switch <;> rfl
  | tickDelay optarg | cacheSize optarg | transactionDuration optarg
  | leaseExpirationCheck optarg | leaseTime optarg | log optarg =>
    obtain ⟨r, hr, rfl⟩ := setNumber_scanned (Except.ok.inj h)
    cases switch <;> rfl

/-- What every flag does to a value by what it gives for it, all of them do by the last one that
gives something. -/
theorem configParseFlags_last {β : Type} {get : ServerSetup → β} {given : Flag → Option β}
    (hflag : ∀ s flag s', configParseFlag ifap argc s flag = .ok (0, s') →
      get s' = (given flag).getD (get s))
    (h : configParseFlags ifap argc flags s = .ok (0, s')) :
    get s' = (flags.reverse.findSome? given).getD (get s) := by
  induction flags generalizing s with
  | nil =>
    cases h
    rfl
  | cons flag flags ih =>
    obtain ⟨⟨rv, s₁⟩, hfirst, hrest⟩ := seq_ok.mp h
    dsimp only at hrest
    split at hrest
    · rename_i hrv
      subst hrv
      rw [ih hrest, hflag s flag s₁ hfirst, List.reverse_cons, List.findSome?_append]
      cases flags.reverse.findSome? given with
      | some b => rfl
      | none => cases hg : given flag <;> simp [hg]
    · rename_i hrv
      cases hrest
      exact absurd rfl hrv

end Flags

theorem getD_of_nonzero (o : Option UInt32) (d : UInt32) :
    (if o.getD 0 ≠ 0 then o.getD 0 else d) = (o.filter (· ≠ 0)).getD d := by
  cases o with
  | none => simp
  | some n =>
    by_cases hn : n = 0 <;> simp [Option.filter, hn]

section Initial

/-- The fields when the first flag is parsed. -/
def parsingSetup : ServerSetup :=
  { initialSetup with
    config := { initialSetup.config with dbEnable := configUntouched }
    aclEnable := configUntouched
    dynamicAclEnable := configUntouched
    aclBlacklist := configUntouched }

theorem NumberSetting.get_initial (setting : NumberSetting) :
    setting.get parsingSetup.config = 0 := by
  cases setting <;> rfl

theorem Switch.get_initial (switch : Switch) : switch.get parsingSetup = configUntouched := by
  cases switch <;> rfl

theorem Switch.given_touched (switch : Switch) {flag : Flag} {b : UInt8}
    (h : switch.given flag = some b) : b ≠ configUntouched := by
  unfold Switch.given at h
  split at h
  · cases h
    cases switch <;> decide
  · split at h
    · cases h
      decide
    · cases h

end Initial

section File

variable {s final : ServerSetup} {c c' : ServerFields} {config serverConfig : Option Json}

/-- A number that a flag has set stays unless it is 0. -/
theorem loadServerNumbers_number (serverConfig : Option Json) (c : ServerFields)
    (setting : NumberSetting) : setting.get (loadServerNumbers serverConfig c) =
      if setting.get c ≠ 0 then setting.get c else setting.fromFile serverConfig := by
  cases setting with
  | tickDelay | cacheSize | transDuration | leaseExpirationCheck | leaseTime => rfl
  | logVerbosity =>
    have hzero : c.logVerbosity.toUInt32 = 0 ↔ c.logVerbosity = 0 := by
      simp [← UInt32.toNat_inj, ← UInt8.toNat_inj]
    show (loadUInt8 serverConfig "log_verbosity".toList 4 c.logVerbosity).toUInt32 =
      if c.logVerbosity.toUInt32 ≠ 0 then c.logVerbosity.toUInt32 else _
    rw [loadUInt8, NumberSetting.fromFile]
    by_cases h : c.logVerbosity = 0
    · rw [if_neg (not_not.mpr h), if_neg (not_not.mpr (hzero.mpr h))]
      show UInt8.toUInt32 (match serverConfig.bind (Json.getObjectItem "log_verbosity".toList) with
        | some object => numberToUInt8 object.getNumberValue
        | none => 4) = match serverConfig.bind (Json.getObjectItem "log_verbosity".toList) with
        | some object => NumberSetting.logVerbosity.loaded object.getNumberValue
        | none => 4
      cases serverConfig.bind (Json.getObjectItem "log_verbosity".toList) <;> rfl
    · rw [if_pos h, if_pos (mt hzero.mp h)]

/-- What the server section makes of the fields: its numbers and its switch. -/
theorem configLoadServerConfig_settings {ifap : List IfAddr}
    (h : configLoadServerConfig ifap serverConfig c = .ok (true, c')) :
    ∃ c₁, c' = loadServerNumbers serverConfig c₁ ∧ c₁.dbEnable = c.dbEnable ∧
      ∀ setting : NumberSetting, setting.get c₁ = setting.get c := by
  rcases configLoadServerConfig_ok.mp h with ⟨-, hc'⟩ | ⟨-, name, -, -, -, hc'⟩
  · exact ⟨c, hc', rfl, fun _ => rfl⟩
  · refine ⟨_, hc', rfl, ?_⟩
    intro setting
    cases setting <;> rfl

/-- The file decides on what no flag has touched. -/
theorem configLoadSections_switch {fields : ServerFields}
    (hfields : fields.dbEnable = if s.config.dbEnable = configUntouched then
      Switch.dbEnable.fromFile config else s.config.dbEnable)
    (h : configLoadSections config (s.setConfig fields) = .ok (true, final)) (switch : Switch) :
    switch.get final = if switch.get s = configUntouched then switch.fromFile config
      else switch.get s := by
  have hconfig := (configLoadSections_ok h).1
  obtain ⟨allocator, -, h⟩ := seq_ok.mp h
  dsimp only at h
  split at h
  · cases h
    cases switch with
    | dbEnable => exact hfields
    | aclEnable | aclBlacklist | dynamicAclEnable => rfl
  · cases h

end File

/-- In every configuration that is accepted, each number of the server comes from the last flag that
gives it, unless that is 0, else from the file, else it is the default one; each switch comes
from the last flag that sets it, else from the file, and is on without either. -/
theorem settings_precedence {cjson : JsonCodec} {fs : FileSystem} {argv : List CString}
    {ifap : List IfAddr} {s final : ServerSetup}
    (hparse : configParseArguments ifap argv initialSetup = .ok (0, s))
    (hload : configLoadConfiguration cjson fs ifap s = .ok (true, final)) :
    (∀ setting : NumberSetting, setting.get final.config = setting.chosen (flagsOf argv)
      ((configFile cjson fs ((flagsOf argv).foldl pathAfter configDefaultPath)).bind
        (Json.getObjectItem "server".toList))) ∧
    ∀ switch : Switch, switch.get final = switch.chosen (flagsOf argv)
      (configFile cjson fs ((flagsOf argv).foldl pathAfter configDefaultPath)) := by
  have hflags : configParseFlags ifap argv.length (flagsOf argv) parsingSetup = .ok (0, s) := hparse
  obtain ⟨hpath, -⟩ := configParseArguments_ok hparse
  obtain ⟨fields, hserver, hsections⟩ := configLoadConfiguration_ok.mp hload
  rw [hpath] at hserver hsections
  obtain ⟨c₁, hfields, hdb, hnumbers⟩ := configLoadServerConfig_settings hserver
  have hswitch : fields.dbEnable = if s.config.dbEnable = configUntouched then
      Switch.dbEnable.fromFile (configFile cjson fs
        ((flagsOf argv).foldl pathAfter configDefaultPath)) else s.config.dbEnable := by
    rw [← hdb, hfields]
    rfl
  constructor
  · intro setting
    have hlast := configParseFlags_last
      (fun s flag s' h => configParseFlag_number h setting) hflags
    rw [(configLoadSections_ok hsections).1, hfields, loadServerNumbers_number, hnumbers, hlast,
      setting.get_initial]
    exact getD_of_nonzero _ _
  · intro switch
    have hlast := configParseFlags_last
      (fun s flag s' h => configParseFlag_switch h switch) hflags
    rw [configLoadSections_switch hswitch hsections, hlast, switch.get_initial, Switch.chosen]
    cases hfind : (flagsOf argv).reverse.findSome? switch.given with
    | none => simp
    | some b =>
      obtain ⟨flag, -, hflag⟩ := List.exists_of_findSome?_eq_some hfind
      exact if_neg (switch.given_touched hflag)

/-- A file with a tick delay, a cache size and a switch. -/
def precedenceFile : FileSystem := fun _ => some (JsonText.codec.print (.object [
  ("server".toList, .object [("interface".toList, .string "eth0".toList),
    ("tick_delay".toList, .number 500), ("cache_size".toList, .number 8)]),
  ("security".toList, .object [("dynamic_acl".toList, .bool false)])]))

def precedenceArgv : List CString := ["dhcps".toList, "--tick-delay".toList, "0".toList,
  "--cache-size".toList, "7".toList, "-s9".toList, "--acl-disable".toList]

/-- The tick delay is the file's, the cache size the last flag's and the lease time the default. -/
theorem settings_of_arguments_and_file :
    ∃ final : ServerSetup, final.config.tickDelay = 500 ∧ final.config.cacheSize = 9 ∧
      final.config.leaseTime = 43200 ∧ final.aclEnable = 0 ∧ final.dynamicAclEnable = 0 ∧
      (∀ setting : NumberSetting, setting.get final.config = setting.chosen
        (flagsOf precedenceArgv) ((configFile JsonText.codec precedenceFile
          ((flagsOf precedenceArgv).foldl pathAfter configDefaultPath)).bind
          (Json.getObjectItem "server".toList))) ∧
      ∀ switch : Switch, switch.get final = switch.chosen (flagsOf precedenceArgv)
        (configFile JsonText.codec precedenceFile
          ((flagsOf precedenceArgv).foldl pathAfter configDefaultPath)) := by
  have hrun : (configParseArguments (oneInterface "eth0".toList) precedenceArgv
      initialSetup).toOption.any (fun parsed => parsed.1 == 0 &&
        (configLoadConfiguration JsonText.codec precedenceFile (oneInterface "eth0".toList)
          parsed.2).toOption.any fun loaded => loaded.1 && decide (loaded.2.config.tickDelay = 500 ∧
            loaded.2.config.cacheSize = 9 ∧ loaded.2.config.leaseTime = 43200 ∧
            loaded.2.aclEnable = 0 ∧ loaded.2.dynamicAclEnable = 0)) = true := by decide +kernel
  obtain ⟨⟨rv, s⟩, hparse, hrest⟩ := exists_ok_of_any hrun
  obtain ⟨hrv, hrest⟩ := Bool.and_eq_true_iff.mp hrest
  obtain ⟨⟨loaded, final⟩, hload, htest⟩ := exists_ok_of_any hrest
  obtain ⟨hloaded, htest⟩ := Bool.and_eq_true_iff.mp htest
  obtain ⟨htick, hcache, htime, hacl, hdynamic⟩ := of_decide_eq_true htest
  obtain rfl : rv = 0 := beq_iff_eq.mp hrv
  obtain rfl : loaded = true := hloaded
  exact ⟨final, htick, hcache, htime, hacl, hdynamic, settings_precedence hparse hload⟩

end DHCPServer
