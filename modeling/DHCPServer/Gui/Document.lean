import DHCPServer.Gui.Sections

namespace DHCPServer

/-- The value under a key of a section of the document. -/
def settingAt (part key : CString) (doc : Json) : Option Json :=
  (doc.getObjectItem part).bind (Json.getObjectItem key)

section Document

variable {config : Json} {key other : CString} {v : Option Json}

theorem getObjectItem_put_self (h : v.isSome = (config.getObjectItem key).isSome) :
    (putSection key v config).getObjectItem key = v := by
  cases v with
  | none =>
    have hnone : config.getObjectItem key = none := by simpa using h.symm
    exact hnone
  | some v =>
    obtain ⟨old, hold⟩ : ∃ old, config.getObjectItem key = some old :=
      Option.isSome_iff_exists.mp (by simpa using h.symm)
    rw [putSection, Json.getObjectItem_modify_self, hold]
    rfl

theorem getObjectItem_put_ne (hne : Json.sameKey key other = false) :
    (putSection key v config).getObjectItem other = config.getObjectItem other := by
  cases v with
  | none => rfl
  | some v => exact Json.getObjectItem_modify_ne hne config

theorem put_object {members : List (CString × Json)} (h : config = .object members) :
    ∃ members', putSection key v config = .object members' := by
  subst h
  cases v with
  | none => exact ⟨members, rfl⟩
  | some v => exact ⟨_, rfl⟩

end Document

section Parts

variable {doc w : Json} {t : TabConfig}

/-- What a loaded state has from the parts of its document. -/
structure LoadedParts (doc : Json) (t : TabConfig) : Prop where
  config : t.config = doc
  server : loadEntries ((doc.getObjectItem "server".toList).map JsonNode.ofJson) serverEntries =
    .ok (t.server, t.configEntries)
  security : loadSecurity ((doc.getObjectItem "security".toList).map JsonNode.ofJson) =
    .ok (t.security, t.securityAclEntries)
  enable : t.aclEnable = aclEnableEntry
  mode : t.aclMode = aclModeEntry
  dacl : t.daclEnable = daclEnableEntry
  pools : t.pools = doc.getObjectItem "pools".toList
  loaded : ∃ ps, loadPools (childrenOf t.pools) = .ok ps ∧ t.poolsPools = ps.map Prod.fst ∧
    loadPoolOptions ps = .ok t.poolOptions
  options : t.options = doc.getObjectItem "options".toList
  globalOptions : loadOptions (childrenOf t.options) = .ok t.globalOptions

theorem loadDocument_parts (h : loadDocument doc = .ok t) : LoadedParts doc t := by
  obtain ⟨⟨server, entries⟩, hserver, h⟩ := seq_ok.mp h
  obtain ⟨⟨security, strings⟩, hsecurity, h⟩ := seq_ok.mp h
  obtain ⟨ps, hps, h⟩ := seq_ok.mp h
  obtain ⟨globals, hglobals, h⟩ := seq_ok.mp h
  obtain ⟨oss, hoss, h⟩ := seq_ok.mp h
  obtain rfl := (Except.ok.inj h).symm
  rw [loadDhcpConfig_children] at hglobals
  exact ⟨rfl, hserver, hsecurity, rfl, rfl, rfl, rfl, ⟨ps, hps, rfl, hoss⟩, rfl, hglobals⟩

/-- The pointers of a state lead into its document, which has a place for every section that is
behind one. -/
structure Attached (t : TabConfig) : Prop where
  server : t.server.isSome = (t.config.getObjectItem "server".toList).isSome
  security : t.security.isSome = (t.config.getObjectItem "security".toList).isSome
  pools : t.pools = t.config.getObjectItem "pools".toList
  options : t.options = t.config.getObjectItem "options".toList
  object : ∃ members, t.config = .object members

theorem LoadedParts.attached (hp : LoadedParts doc t) : Attached t := by
  have hserver := loadEntries_isSome hp.server
  have hpart := hp.security
  cases hsec : doc.getObjectItem "security".toList with
  | none =>
    rw [hsec] at hpart
    exact absurd hpart loadSecurity_none
  | some j =>
    rw [hsec] at hpart
    obtain ⟨n', hsecurity, -⟩ := loadSecurity_some hpart
    rw [Option.isSome_map] at hserver
    constructor
    · rw [hp.config, hserver]
    · rw [hp.config, hsec, hsecurity]
      rfl
    · rw [hp.config, hp.pools]
    · rw [hp.config, hp.options]
    · cases doc with
      | object members => exact ⟨members, hp.config⟩
      | _ => cases hsec

/-- What is written of each part. -/
structure WrittenParts (t : TabConfig) (w : Json) : Prop where
  server : ∃ server, applyEntries t.server t.configEntries = .ok server ∧
    w.getObjectItem "server".toList = server.map JsonNode.toJson
  security : w.getObjectItem "security".toList =
    (t.security.map (applySecurity t)).map JsonNode.toJson
  pools : ∃ itemss, applyPoolOptions t.poolOptions = .ok itemss ∧
    w.getObjectItem "pools".toList =
      t.pools.map (refillArray (List.zipWith poolJson t.poolsPools itemss))
  options : ∃ items, applyOptions t.globalOptions = .ok items ∧
    w.getObjectItem "options".toList = t.options.map (refillArray items)

/-- In the document that is written each part is found in its place. -/
theorem settingsDocument_parts (ha : Attached t) (h : settingsDocument t = .ok w) :
    WrittenParts t w ∧ ∃ members, w = .object members := by
  obtain ⟨server, hserver, h⟩ := seq_ok.mp h
  obtain ⟨items, hitems, h⟩ := seq_ok.mp h
  obtain ⟨itemss, hitemss, h⟩ := seq_ok.mp h
  obtain rfl := (Except.ok.inj h).symm
  refine ⟨⟨⟨server, hserver, ?_⟩, ?_, ⟨itemss, hitemss, ?_⟩, ⟨items, hitems, ?_⟩⟩, ?_⟩
  · apply getObjectItem_put_self
    rw [getObjectItem_put_ne (by decide), getObjectItem_put_ne (by decide),
      getObjectItem_put_ne (by decide), Option.isSome_map, applyEntries_isSome hserver, ha.server]
  · rw [getObjectItem_put_ne (by decide)]
    apply getObjectItem_put_self
    rw [getObjectItem_put_ne (by decide), getObjectItem_put_ne (by decide), Option.isSome_map,
      Option.isSome_map, ha.security]
  · rw [getObjectItem_put_ne (by decide), getObjectItem_put_ne (by decide)]
    apply getObjectItem_put_self
    rw [getObjectItem_put_ne (by decide), Option.isSome_map, ha.pools]
  · rw [getObjectItem_put_ne (by decide), getObjectItem_put_ne (by decide),
      getObjectItem_put_ne (by decide)]
    apply getObjectItem_put_self
    rw [Option.isSome_map, ha.options]
  · have hput : ∀ {key : CString} {v : Option Json} {config : Json},
        (∃ m, config = .object m) → ∃ m, putSection key v config = .object m := fun ⟨_, hm⟩ =>
      put_object hm
    exact hput (hput (hput (hput ha.object)))

/-- Of a section that is an object the keys are found behind its pointer. -/
theorem settingAt_object {part key : CString} {members : List (CString × Json)}
    (h : doc.getObjectItem part = some (.object members)) :
    settingAt part key doc = (JsonNode.ofJson (.object members)).getItem key := by
  rw [settingAt, h, Option.bind_some, JsonNode.getItem_ofJson_object]

theorem settingAt_written {part key : CString} {n : JsonNode} {members : List (CString × Json)}
    (h : w.getObjectItem part = some n.toJson) (hn : n.value = .object members) :
    settingAt part key w = n.getItem key := by
  rw [settingAt, h, Option.bind_some, JsonNode.getObjectItem_toJson hn]

/-- A section that has settings was printed as an object. -/
theorem object_of_settingAt {part key : CString} {n : JsonNode} {v : Json}
    (h : w.getObjectItem part = some n.toJson) (hv : settingAt part key w = some v) :
    ∃ members, n.value = .object members := by
  by_contra hno
  have hnone : n.toJson.getObjectItem key = none :=
    JsonNode.getObjectItem_toJson_none fun members hm => hno ⟨members, hm⟩
  rw [settingAt, h, Option.bind_some, hnone] at hv
  cases hv

end Parts

end DHCPServer
