import DHCPServer.Framework.JsonNode
import DHCPServer.Gui.Number
import DHCPServer.Packet.Option

namespace DHCPServer

inductive ConfType where
  | numeric
  | string
  | boolean
  | ip
  deriving DecidableEq, Repr

/-- A setting with its widget's content: text for numbers and strings, an index for booleans. -/
structure ConfEntry where
  jsonPath : CString
  type : ConfType
  val : CString
  valI : Int
  defVal : CString
  defValI : Int

/-- `DHCPOption` of the GUI. -/
structure OptionEntry where
  tag : Int
  lenght : Int
  value : CString

/-- `DHCPPool` of the GUI. -/
structure PoolEntry where
  name : CString
  startAddr : CString
  endAddr : CString
  subnet : CString

/-- The document as it was loaded, the sections that the pointers of `config_json` lead to, and the
contents of the widgets. Of the option lists the global one comes first in the source. -/
structure TabConfig where
  config : Json
  server : Option JsonNode
  pools : Option Json
  options : Option Json
  security : Option JsonNode
  configEntries : List ConfEntry
  aclEnable : ConfEntry
  aclMode : ConfEntry
  daclEnable : ConfEntry
  securityAclEntries : List CString
  poolsPools : List PoolEntry
  globalOptions : List OptionEntry
  poolOptions : List (List OptionEntry)

section Initialize

/-- A number entry of `initialize`; members that an initializer leaves out are empty or 0. -/
def numericEntry (jsonPath val : CString) : ConfEntry := ⟨jsonPath, .numeric, val, 0, val, 0⟩

/-- A Boolean entry of `initialize`; all of them are on. -/
def booleanEntry (jsonPath : CString) : ConfEntry := ⟨jsonPath, .boolean, [], 1, [], 1⟩

def interfaceEntry : ConfEntry := ⟨"interface".toList, .string, [], 0, [], 0⟩

def tickDelayEntry : ConfEntry := numericEntry "tick_delay".toList "1000".toList

def cacheSizeEntry : ConfEntry := numericEntry "cache_size".toList "25".toList

def transactionDurationEntry : ConfEntry :=
  numericEntry "transaction_duration".toList "60".toList

def leaseExpirationCheckEntry : ConfEntry :=
  numericEntry "lease_expiration_check".toList "60".toList

def logVerbosityEntry : ConfEntry := numericEntry "log_verbosity".toList "4".toList

def leaseTimeEntry : ConfEntry := numericEntry "lease_time".toList "43200".toList

def dbEnableEntry : ConfEntry := booleanEntry "db_enable".toList

/-- The entries of the server section, from interface to database. -/
def serverEntries : List ConfEntry := [
  interfaceEntry, tickDelayEntry, cacheSizeEntry, transactionDurationEntry,
  leaseExpirationCheckEntry, logVerbosityEntry, leaseTimeEntry, dbEnableEntry]

def aclEnableEntry : ConfEntry := booleanEntry "acl_enable".toList

def aclModeEntry : ConfEntry := booleanEntry "acl_blacklist".toList

def daclEnableEntry : ConfEntry := booleanEntry "dynamic_acl".toList

def aclEntriesPath : CString := "acl_entries".toList

end Initialize

section Load

/-- `dhcp_option_tag_to_type` of the GUI, which has its own table. -/
def guiTagToType (tag : Int) : DhcpOptionType :=
  -- subnet mask, router, the server lists, server identifier, swap server, broadcast address,
  -- router solicitation, static route, NIS, NTP, NetBIOS and X servers, requested address
  if [1, 3, 4, 5, 6, 7, 8, 9, 54, 10, 11, 16, 28, 32, 33, 41, 42, 44, 45, 48, 49, 50].contains tag
    then .ip
  -- time offset, boot file size, TTLs, MTU values, reassembly size, keepalive interval, lease
  -- time, node type, renewal and rebinding times, message type, ARP, overload
  else if [2, 13, 23, 24, 26, 22, 37, 38, 51, 46, 58, 59, 53, 35, 52].contains tag then .numeric
  -- IP forwarding, non-local source routing, router discovery, all subnets local, mask
  -- supplier, trailer encapsulation, mask discovery, 802.3 encapsulation, keepalive garbage
  else if [19, 20, 31, 27, 30, 34, 29, 36, 39].contains tag then .bool
  -- policy filter, host name, NIS domain, domain name, user class, FQDN, paths, NetBIOS scope
  else if [21, 12, 40, 15, 77, 81, 17, 18, 47].contains tag then .string
  else .bin

/-- The text that `load_dhcp_config` makes of a value, by the type of the option. -/
def optionText (type : DhcpOptionType) (e : Json) : Except GuiError CString :=
  match type with
  | .ip | .string =>
    match stringMember e "value".toList with
    | none => .error .nullString
    | some s => .ok s
  | .numeric | .bool => .ok (fixedText (numberMember e "value".toList))
  | .bin => .ok []

/-- A pass of the loop of `load_dhcp_config`; options without a value are left out. -/
def loadOption (e : Json) : Except GuiError (Option OptionEntry) := do
  let tag := numberToInt (numberMember e "tag".toList)
  let lenght := numberToInt (numberMember e "lenght".toList)
  let value ← optionText (guiTagToType tag) e
  return if value = [] then none else some ⟨tag, lenght, value⟩

def loadOptions : List Json → Except GuiError (List OptionEntry)
  | [] => .ok []
  | e :: es => do
    let o ← loadOption e
    let os ← loadOptions es
    return o.toList ++ os

/-- `load_dhcp_config`; there is nothing to load behind a null pointer. -/
def loadDhcpConfig (json : Option Json) : Except GuiError (List OptionEntry) :=
  match json with
  | none => .ok []
  | some json => loadOptions json.children

/-- What a missing entry is added with. -/
def ConfEntry.added (e : ConfEntry) : Json :=
  match e.type with
  | .string | .ip => .string e.defVal
  | .numeric => .number (e.defValI : Rat)
  | .boolean => .bool (decide (e.defValI ≠ 0))

/-- The entry with the value found in the file. -/
def ConfEntry.read (e : ConfEntry) (v : Json) : Except GuiError ConfEntry :=
  match e.type, v with
  | .string, .string s => .ok { e with val := s }
  | .ip, .string s =>
    if ipv4AddressToUint32 s = 0 then .error .rejected else .ok { e with val := s }
  | .numeric, .number q => .ok { e with val := fixedText (some q) }
  | .boolean, .bool b => .ok { e with valI := if b then 1 else 0 }
  | _, _ => .error .rejected

/-- A pass of the loop over the server entries. Nothing can be added behind a null pointer. -/
def loadEntry (server : Option JsonNode) (e : ConfEntry) :
    Except GuiError (Option JsonNode × ConfEntry) :=
  match server.bind (JsonNode.getItem e.jsonPath) with
  | none => .ok (server.map (JsonNode.addItem e.jsonPath e.added), e)
  | some v => do
    let e ← e.read v
    return (server, e)

def loadEntries (server : Option JsonNode) :
    List ConfEntry → Except GuiError (Option JsonNode × List ConfEntry)
  | [] => .ok (server, [])
  | e :: es => do
    let (server, e) ← loadEntry server e
    let (server, es) ← loadEntries server es
    return (server, e :: es)

def addMissing (key : CString) (v : Json) (n : JsonNode) : JsonNode :=
  if (n.getItem key).isSome then n else n.addItem key v

def aclEntryStrings : List Json → Except GuiError (List CString)
  | [] => .ok []
  | .string s :: es => do
    let ss ← aclEntryStrings es
    return s :: ss
  | _ :: _ => .error .nullString

/-- The security part of `load_config_file`. A missing dynamic ACL gets the default of the mode. -/
def loadSecurity (security : Option JsonNode) :
    Except GuiError (Option JsonNode × List CString) := do
  let security := security.map fun n =>
    addMissing aclEntriesPath (.array []) (addMissing daclEnableEntry.jsonPath aclModeEntry.added
      (addMissing aclModeEntry.jsonPath aclModeEntry.added
        (addMissing aclEnableEntry.jsonPath aclEnableEntry.added n)))
  match security.bind (JsonNode.getItem aclEnableEntry.jsonPath),
    security.bind (JsonNode.getItem aclModeEntry.jsonPath),
    security.bind (JsonNode.getItem aclEntriesPath) with
  | some (.bool _), some (.bool _), some (.array entries) =>
    let strings ← aclEntryStrings entries
    return (security, strings)
  | _, _, _ => .error .rejected

/-- A pool of the file with its options. The empty array that is added to a pool without options
goes when the pools are written anew. -/
def loadPool (e : Json) : Except GuiError (PoolEntry × Json) :=
  match stringMember e "name".toList, stringMember e "start".toList, stringMember e "end".toList,
    stringMember e "subnet".toList with
  | some name, some start, some last, some subnet =>
    if name = [] ∨ ipv4AddressToUint32 start = 0 ∨ ipv4AddressToUint32 last = 0 ∨
        ipv4AddressToUint32 subnet = 0 then .error .rejected
    else .ok (⟨name, start, last, subnet⟩, (e.getObjectItem "options".toList).getD (.array []))
  | _, _, _, _ => .error .nullString

def loadPools : List Json → Except GuiError (List (PoolEntry × Json))
  | [] => .ok []
  | e :: es => do
    let p ← loadPool e
    let ps ← loadPools es
    return p :: ps

def loadPoolOptions : List (PoolEntry × Json) → Except GuiError (List (List OptionEntry))
  | [] => .ok []
  | p :: ps => do
    let os ← loadDhcpConfig (some p.2)
    let oss ← loadPoolOptions ps
    return os :: oss

def childrenOf (json : Option Json) : List Json := (json.map Json.children).getD []

/-- `load_config_file` from the parsed document on. -/
def loadDocument (config : Json) : Except GuiError TabConfig := do
  let pools := config.getObjectItem "pools".toList
  let options := config.getObjectItem "options".toList
  let (server, configEntries) ←
    loadEntries ((config.getObjectItem "server".toList).map JsonNode.ofJson) serverEntries
  let (security, securityAclEntries) ←
    loadSecurity ((config.getObjectItem "security".toList).map JsonNode.ofJson)
  let loaded ← loadPools (childrenOf pools)
  let globalOptions ← loadDhcpConfig options
  let poolOptions ← loadPoolOptions loaded
  return ⟨config, server, pools, options, security, configEntries, aclEnableEntry, aclModeEntry,
    daclEnableEntry, securityAclEntries, loaded.map Prod.fst, globalOptions, poolOptions⟩

/-- What is worked on when there is no file. -/
def emptyDocument : Json :=
  .object [("server".toList, .object []), ("pools".toList, .array []),
    ("options".toList, .array []), ("security".toList, .object [])]

/-- `load_config_file` with the text of the file, if there is one. Success stands for the return
value 0. -/
def loadConfigFile (codec : JsonCodec) (file : Option CString) : Except GuiError TabConfig :=
  match file with
  | none => loadDocument emptyDocument
  | some text =>
    match codec.parse text with
    | none => .error .rejected
    | some config => loadDocument config

end Load

section Apply

def clearArray : Json → Json
  | .array _ => .array []
  | .object _ => .object []
  | v => v

/-- The array with new items, added one by one. -/
def refillArray (items : List Json) (json : Json) : Json :=
  items.foldl (fun json item => Json.addItemToArray item json) (clearArray json)

/-- What is written over the value an entry has in the document. -/
def ConfEntry.written (e : ConfEntry) (v : Json) : Except GuiError Json :=
  match e.type, v with
  | .string, .string _ | .ip, .string _ => .ok (.string e.val)
  | .numeric, .number _ => do
    let n ← stoi e.val
    return .number (n : Rat)
  | .boolean, .bool _ => .ok (.bool (decide (e.valI ≠ 0)))
  | _, _ => .error .rejected

/-- A pass of the loop over the server entries. The source copies every entry over the first one
and works on that, which nothing reads before the next run. -/
def applyEntry (server : Option JsonNode) (e : ConfEntry) : Except GuiError (Option JsonNode) :=
  match server.bind (JsonNode.getItem e.jsonPath) with
  | none => .ok server
  | some v => do
    let w ← e.written v
    return server.map (JsonNode.modifyItem e.jsonPath fun _ => w)

def applyEntries (server : Option JsonNode) : List ConfEntry → Except GuiError (Option JsonNode)
  | [] => .ok server
  | e :: es => do
    let server ← applyEntry server e
    applyEntries server es

/-- `cJSON_SetBoolValue` does nothing to other values. -/
def setBoolValue (b : Bool) : Json → Json
  | .bool _ => .bool b
  | v => v

def setSwitch (e : ConfEntry) (n : JsonNode) : JsonNode :=
  n.modifyItem e.jsonPath (setBoolValue (decide (e.valI ≠ 0)))

/-- The security part of `apply_settings`; empty entries are erased. -/
def applySecurity (t : TabConfig) (n : JsonNode) : JsonNode :=
  (setSwitch t.aclMode (setSwitch t.aclEnable (setSwitch t.daclEnable n))).modifyItem aclEntriesPath
    (refillArray ((t.securityAclEntries.filter fun s => s ≠ []).map Json.string))

/-- An option as it is written. -/
def optionJson (tag lenght : Int) (value : Json) : Json :=
  .object [("tag".toList, .number (tag : Rat)), ("lenght".toList, .number (lenght : Rat)),
    ("value".toList, value)]

/-- The items that `apply_options` adds. An address that is not valid ends it early, the length of
a string is cut to an `int`. -/
def applyOptions : List OptionEntry → Except GuiError (List Json)
  | [] => .ok []
  | o :: os =>
    match guiTagToType o.tag with
    | .ip =>
      if ipv4AddressToUint32 o.value = 0 then .ok []
      else do
        let items ← applyOptions os
        return optionJson o.tag 4 (.string o.value) :: items
    | .string => do
      let items ← applyOptions os
      return optionJson o.tag ((o.value.length : Int).bmod (2 ^ 32)) (.string o.value) :: items
    | .bool => do
      let n ← stoi o.value
      let items ← applyOptions os
      return optionJson o.tag 1 (.bool (decide (n ≠ 0))) :: items
    | .numeric => do
      let n ← stoi o.value
      let items ← applyOptions os
      return optionJson o.tag (if o.lenght = 0 then 4 else o.lenght) (.number (n : Rat)) :: items
    | .bin => applyOptions os

def applyPoolOptions : List (List OptionEntry) → Except GuiError (List (List Json))
  | [] => .ok []
  | os :: oss => do
    let items ← applyOptions os
    let itemss ← applyPoolOptions oss
    return items :: itemss

/-- A pool as it is written. -/
def poolJson (p : PoolEntry) (items : List Json) : Json :=
  .object [("name".toList, .string p.name), ("start".toList, .string p.startAddr),
    ("end".toList, .string p.endAddr), ("subnet".toList, .string p.subnet),
    ("options".toList, refillArray items (.array []))]

/-- The document with a section put in the place of the one with the key. -/
def putSection (key : CString) (v : Option Json) (config : Json) : Json :=
  match v with
  | none => config
  | some v => config.modifyObjectItem key fun _ => v

/-- The document that `apply_settings` prints. Pools are written as far as there are option lists
for them. -/
def settingsDocument (t : TabConfig) : Except GuiError Json := do
  let server ← applyEntries t.server t.configEntries
  let globalItems ← applyOptions t.globalOptions
  let poolItems ← applyPoolOptions t.poolOptions
  let security := t.security.map (applySecurity t)
  let pools := t.pools.map (refillArray (List.zipWith poolJson t.poolsPools poolItems))
  let options := t.options.map (refillArray globalItems)
  return putSection "server".toList (server.map JsonNode.toJson)
    (putSection "security".toList (security.map JsonNode.toJson)
      (putSection "pools".toList pools (putSection "options".toList options t.config)))

/-- `apply_settings` with the text it writes to the file, when that can be opened. -/
def applySettings (codec : JsonCodec) (t : TabConfig) : Except GuiError CString := do
  let config ← settingsDocument t
  return codec.print config ++ ['\n']

end Apply

end DHCPServer
