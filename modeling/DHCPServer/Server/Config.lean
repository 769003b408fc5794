import DHCPServer.Framework.Fault
import DHCPServer.Framework.Json
import DHCPServer.Pool.AddressPool

namespace DHCPServer

/-- The part of `server->config` that the server section is loaded into. -/
structure ServerFields where
  interface : CString
  boundIp : UInt32
  broadcastAddr : UInt32
  tickDelay : UInt32
  cacheSize : UInt32
  transDuration : UInt32
  leaseExpirationCheck : UInt32
  leaseTime : UInt32
  logVerbosity : UInt8
  dbEnable : UInt8

/-- `CONFIG_UNTOUCHED` -/
def configUntouched : UInt8 := 2

/-- The fields after `config_parse_arguments` without any flag. -/
def untouchedFields : ServerFields := ⟨[], 0, 0, 0, 0, 0, 0, 0, 0, configUntouched⟩

/-- An address of an interface; `inet` tells whether its family is `AF_INET`. -/
structure SockAddr where
  inet : Bool
  addr : UInt32

/-- An entry of the list of `getifaddrs`, with the addresses in host order. -/
structure IfAddr where
  name : CString
  addr : Option SockAddr
  broadaddr : Option UInt32

/-- The loop of `config_get_interface_info`. -/
def interfaceLoop : List IfAddr → ServerFields → ServerFields
  | [], c => c
  | ifa :: rest, c =>
    if ifa.name ≠ c.interface then interfaceLoop rest c
    else
      match ifa.addr with
      | none => interfaceLoop rest c
      | some addr =>
        let c := if addr.inet then { c with boundIp := addr.addr } else c
        let c :=
          match ifa.broadaddr with
          | some broadcast => if addr.inet then { c with broadcastAddr := broadcast } else c
          | none => c
        if c.boundIp ≠ 0 ∧ c.broadcastAddr ≠ 0 then c else interfaceLoop rest c

/-- `config_get_interface_info`; `true` stands for the return value 0. -/
def configGetInterfaceInfo (ifap : List IfAddr) (c : ServerFields) : Bool × ServerFields :=
  let c := interfaceLoop ifap c
  (decide (c.boundIp ≠ 0 ∧ c.broadcastAddr ≠ 0), c)

/-- A number that no flag has set, from the file or by default. -/
def loadUInt32 (serverConfig : Option Json) (key : CString) (default old : UInt32) : UInt32 :=
  if old ≠ 0 then old
  else
    match serverConfig.bind (Json.getObjectItem key) with
    | some object => numberToUInt32 object.getNumberValue
    | none => default

def loadUInt8 (serverConfig : Option Json) (key : CString) (default old : UInt8) : UInt8 :=
  if old ≠ 0 then old
  else
    match serverConfig.bind (Json.getObjectItem key) with
    | some object => numberToUInt8 object.getNumberValue
    | none => default

/-- `cJSON_IsTrue` -/
def isTrue : Json → Bool
  | .bool true => true
  | _ => false

/-- What `config_load_server_config` loads behind the interface. -/
def loadServerNumbers (serverConfig : Option Json) (c : ServerFields) : ServerFields :=
  { c with
    tickDelay := loadUInt32 serverConfig "tick_delay".toList 1000 c.tickDelay
    cacheSize := loadUInt32 serverConfig "cache_size".toList 25 c.cacheSize
    transDuration := loadUInt32 serverConfig "trans_duration".toList 60 c.transDuration
    leaseExpirationCheck :=
      loadUInt32 serverConfig "lease_expiration_check".toList 60 c.leaseExpirationCheck
    logVerbosity := loadUInt8 serverConfig "log_verbosity".toList 4 c.logVerbosity
    leaseTime := loadUInt32 serverConfig "lease_time".toList 43200 c.leaseTime
    dbEnable :=
      if c.dbEnable = configUntouched then
        match serverConfig.bind (Json.getObjectItem "db_enable".toList) with
        | some object => if isTrue object then 1 else 0
        | none => 1
      else c.dbEnable }

/-- `config_load_server_config`; `true` stands for the return value 0. Of the interface at most 255
characters are copied. -/
def configLoadServerConfig (ifap : List IfAddr) (serverConfig : Option Json) (c : ServerFields) :
    Except Fault (Bool × ServerFields) :=
  if c.interface = [] then
    match serverConfig.bind (Json.getObjectItem "interface".toList) with
    | none => .ok (false, c)
    | some object => do
      let name ← deref object.getStringValue
      let (found, c) := configGetInterfaceInfo ifap { c with interface := name.take 255 }
      return if found then (true, loadServerNumbers serverConfig c) else (false, c)
  else .ok (true, loadServerNumbers serverConfig c)

section Interface

namespace ServerFields

def addresses (c : ServerFields) : UInt32 × UInt32 := (c.boundIp, c.broadcastAddr)

def setAddresses (c : ServerFields) (a : UInt32 × UInt32) : ServerFields :=
  { c with boundIp := a.1, broadcastAddr := a.2 }

end ServerFields

/-- The addresses after an entry of the interface. -/
def IfAddr.addresses (ifa : IfAddr) (a : UInt32 × UInt32) : UInt32 × UInt32 :=
  match ifa.addr with
  | some ⟨true, ip⟩ => (ip, ifa.broadaddr.getD a.2)
  | _ => a

/-- The addresses an interface has after the loop, from those before it. -/
def interfaceAddresses (name : CString) : List IfAddr → UInt32 × UInt32 → UInt32 × UInt32
  | [], a => a
  | ifa :: rest, a =>
    if ifa.name ≠ name ∨ ifa.addr = none then interfaceAddresses name rest a
    else if (ifa.addresses a).1 ≠ 0 ∧ (ifa.addresses a).2 ≠ 0 then ifa.addresses a
    else interfaceAddresses name rest (ifa.addresses a)

/-- An entry of the interface sets its addresses, another one is passed over. -/
theorem interfaceLoop_cons (ifa : IfAddr) (rest : List IfAddr) (c : ServerFields) :
    interfaceLoop (ifa :: rest) c =
      if ifa.name ≠ c.interface ∨ ifa.addr = none then interfaceLoop rest c
      else if (ifa.addresses c.addresses).1 ≠ 0 ∧ (ifa.addresses c.addresses).2 ≠ 0 then
        c.setAddresses (ifa.addresses c.addresses)
      else interfaceLoop rest (c.setAddresses (ifa.addresses c.addresses)) := by
  obtain ⟨name, addr, broadaddr⟩ := ifa
  by_cases hname : name = c.interface
  · cases addr with
    | none => simp [interfaceLoop]
    | some addr =>
      obtain ⟨inet, ip⟩ := addr
      rw [interfaceLoop, if_neg (not_not.mpr hname), if_neg (by simp [hname])]
      cases inet <;> cases broadaddr <;> rfl
  · rw [interfaceLoop, if_pos hname, if_pos (.inl hname)]

/-- Looking for the addresses of the interface sets nothing else. -/
theorem interfaceLoop_eq (ifap : List IfAddr) (c : ServerFields) :
    interfaceLoop ifap c = c.setAddresses (interfaceAddresses c.interface ifap c.addresses) := by
  induction ifap generalizing c with
  | nil => rfl
  | cons ifa rest ih =>
    rw [interfaceLoop_cons, interfaceAddresses]
    split
    · exact ih c
    split
    · rfl
    · exact ih (c.setAddresses (ifa.addresses c.addresses))

theorem configGetInterfaceInfo_eq (ifap : List IfAddr) (c : ServerFields) :
    configGetInterfaceInfo ifap c =
      (decide ((interfaceAddresses c.interface ifap c.addresses).1 ≠ 0 ∧
        (interfaceAddresses c.interface ifap c.addresses).2 ≠ 0),
        c.setAddresses (interfaceAddresses c.interface ifap c.addresses)) := by
  rw [configGetInterfaceInfo, interfaceLoop_eq]
  rfl

theorem interfaceLoop_frame (ifap : List IfAddr) (c : ServerFields) :
    ∃ boundIp broadcastAddr,
      interfaceLoop ifap c = { c with boundIp := boundIp, broadcastAddr := broadcastAddr } :=
  ⟨_, _, interfaceLoop_eq ifap c⟩

variable {name : CString} {ifap : List IfAddr} {a : UInt32 × UInt32}

/-- An interface that has no entry keeps the addresses. -/
theorem interfaceAddresses_absent (h : ∀ ifa ∈ ifap, ifa.name ≠ name) :
    interfaceAddresses name ifap a = a := by
  induction ifap with
  | nil => rfl
  | cons ifa rest ih =>
    rw [interfaceAddresses, if_pos (.inl (h ifa List.mem_cons_self))]
    exact ih fun ifa' hifa' => h ifa' (List.mem_cons_of_mem _ hifa')

/-- An entry with both addresses is found, or others before it. -/
theorem interfaceAddresses_ne_zero {ifa : IfAddr} {ip broadcast : UInt32} (hmem : ifa ∈ ifap)
    (hname : ifa.name = name) (haddr : ifa.addr = some ⟨true, ip⟩)
    (hbroadcast : ifa.broadaddr = some broadcast) (hip : ip ≠ 0) (hne : broadcast ≠ 0) :
    (interfaceAddresses name ifap a).1 ≠ 0 ∧ (interfaceAddresses name ifap a).2 ≠ 0 := by
  induction ifap generalizing a with
  | nil => cases hmem
  | cons ifa' rest ih =>
    rw [interfaceAddresses]
    rcases List.mem_cons.mp hmem with rfl | hrest
    · have haddresses : ifa.addresses a = (ip, broadcast) := by
        simp [IfAddr.addresses, haddr, hbroadcast]
      rw [if_neg (by simp [hname, haddr]), haddresses, if_pos ⟨hip, hne⟩]
      exact ⟨hip, hne⟩
    · split
      · exact ih hrest
      split
      · rename_i h
        exact h
      · exact ih hrest

/-- What holds of the addresses and is kept by every entry of the interface holds of those found. -/
theorem interfaceAddresses_rule {P : UInt32 × UInt32 → Prop} (h₀ : P a)
    (hstep : ∀ ifa ∈ ifap, ifa.name = name → ∀ a, P a → P (ifa.addresses a)) :
    P (interfaceAddresses name ifap a) := by
  induction ifap generalizing a with
  | nil => exact h₀
  | cons ifa rest ih =>
    have hrest := fun ifa' (hmem : ifa' ∈ rest) => hstep ifa' (List.mem_cons_of_mem _ hmem)
    rw [interfaceAddresses]
    split
    · exact ih h₀ hrest
    · rename_i hentry
      have hname : ifa.name = name := by
        by_contra hne
        exact hentry (.inl hne)
      have hnext := hstep ifa List.mem_cons_self hname a h₀
      split
      · exact hnext
      · exact ih hnext hrest

end Interface

end DHCPServer
