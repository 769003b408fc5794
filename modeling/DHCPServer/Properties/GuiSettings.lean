import DHCPServer.Gui.Document

namespace DHCPServer

/-- The keys of the server section that the server reads, with their defaults. -/
def serverSettings : List (CString × Json) := [
  ("interface".toList, .string []), ("tick_delay".toList, .number 1000),
  ("cache_size".toList, .number 25), ("trans_duration".toList, .number 60),
  ("lease_expiration_check".toList, .number 60), ("log_verbosity".toList, .number 4),
  ("lease_time".toList, .number 43200), ("db_enable".toList, .bool true)]

def securitySettings : List (CString × Json) := [
  ("acl_enable".toList, .bool true), ("acl_blacklist".toList, .bool true),
  ("dynamic_acl".toList, .bool true), ("acl_entries".toList, .array [])]

/-- The option has a type that the server knows, binary ones left aside. -/
def served (e : Json) : Bool := decide (serverType e ≠ .bin)

/-- The written document agrees with the loaded one on what the server reads, with defaults for the
settings that were not there. -/
structure Agrees (loaded written : Json) : Prop where
  server : ∀ k ∈ serverSettings, settingAt "server".toList k.1 written =
    some ((settingAt "server".toList k.1 loaded).getD k.2)
  security : ∀ k ∈ securitySettings, settingAt "security".toList k.1 written =
    some ((settingAt "security".toList k.1 loaded).getD k.2)
  pools : (childrenOf (written.getObjectItem "pools".toList)).map poolKeys =
    (childrenOf (loaded.getObjectItem "pools".toList)).map poolKeys
  options : ((childrenOf (written.getObjectItem "options".toList)).filter served).map optionKeys =
    ((childrenOf (loaded.getObjectItem "options".toList)).filter served).map optionKeys

/-- The keys with numbers that the GUI and the server share. -/
def numberKeys : List CString := [
  "tick_delay".toList, "cache_size".toList, "lease_expiration_check".toList,
  "log_verbosity".toList, "lease_time".toList]

/-- The documents that come through unchanged. Both sections are objects; the numbers are integers
that an `int` holds; the key that only the server knows is there; no switch is off; no entry of the
list is empty; and all options the server takes are kept, in pools the binary ones as well. -/
structure Restorable (doc : Json) : Prop where
  server : ∃ members, doc.getObjectItem "server".toList = some (.object members)
  security : ∃ members, doc.getObjectItem "security".toList = some (.object members)
  numbers : ∀ key ∈ numberKeys, ∀ q, settingAt "server".toList key doc = some (.number q) →
    ∃ n : Int, q = (n : Rat) ∧ InInt n
  transactionDuration : ∀ q, settingAt "server".toList "transaction_duration".toList doc =
    some (.number q) → InInt (roundHalfEven q)
  transDuration : (settingAt "server".toList "trans_duration".toList doc).isSome
  switches : ∀ key ∈ ["acl_enable".toList, "acl_blacklist".toList, "dynamic_acl".toList],
    settingAt "security".toList key doc ≠ some (.bool false)
  aclEntries : ∀ items, settingAt "security".toList "acl_entries".toList doc = some (.array items) →
    .string [] ∉ items
  options : ∀ e ∈ childrenOf (doc.getObjectItem "options".toList), served e = true → OptionKept e
  pools : ∀ p ∈ childrenOf (doc.getObjectItem "pools".toList), PoolKept p

section Entries

/-- A missing number is written as the number that its entry shows. -/
theorem numericEntry_default {path text : CString} {k : Int} (h : stoi text = .ok k) :
    (numericEntry path text).written (numericEntry path text).added = .ok (.number (k : Rat)) := by
  show (stoi text >>= fun n => .ok (Json.number (n : Rat))) = _
  rw [h]
  rfl

/-- Every key of the server section but one belongs to an entry with the same default. -/
theorem serverSettings_entry : ∀ k ∈ serverSettings, k.1 = "trans_duration".toList ∨
    ∃ e ∈ serverEntries, e.jsonPath = k.1 ∧ e.written e.added = .ok k.2 ∧
      (e.type = .numeric ↔ k.1 ∈ numberKeys) := by
  intro k hk
  simp only [serverSettings, List.mem_cons, List.not_mem_nil, or_false] at hk
  rcases hk with rfl | rfl | rfl | rfl | rfl | rfl | rfl | rfl
  · exact Or.inr ⟨interfaceEntry, by simp [serverEntries], rfl, rfl, by decide⟩
  · exact Or.inr ⟨tickDelayEntry, by simp [serverEntries], rfl,
      numericEntry_default (k := 1000) (by decide +kernel), by decide⟩
  · exact Or.inr ⟨cacheSizeEntry, by simp [serverEntries], rfl,
      numericEntry_default (k := 25) (by decide +kernel), by decide⟩
  · exact Or.inl rfl
  · exact Or.inr ⟨leaseExpirationCheckEntry, by simp [serverEntries], rfl,
      numericEntry_default (k := 60) (by decide +kernel), by decide⟩
  · exact Or.inr ⟨logVerbosityEntry, by simp [serverEntries], rfl,
      numericEntry_default (k := 4) (by decide +kernel), by decide⟩
  · exact Or.inr ⟨leaseTimeEntry, by simp [serverEntries], rfl,
      numericEntry_default (k := 43200) (by decide +kernel), by decide⟩
  · exact Or.inr ⟨dbEnableEntry, by simp [serverEntries], rfl, rfl, by decide⟩

theorem serverEntries_convert : ∀ e ∈ serverEntries, e.type = .numeric → ∃ k, stoi e.val = .ok k := by
  intro e he ht
  simp only [serverEntries, List.mem_cons, List.not_mem_nil, or_false] at he
  rcases he with rfl | rfl | rfl | rfl | rfl | rfl | rfl | rfl
  · cases ht
  · exact ⟨1000, by decide +kernel⟩
  · exact ⟨25, by decide +kernel⟩
  · exact ⟨60, by decide +kernel⟩
  · exact ⟨60, by decide +kernel⟩
  · exact ⟨4, by decide +kernel⟩
  · exact ⟨43200, by decide +kernel⟩
  · cases ht

theorem numberKeys_settings : ∀ key ∈ numberKeys, ∃ k ∈ serverSettings, k.1 = key := by
  have hkeys : ∀ key ∈ numberKeys, key ∈ serverSettings.map Prod.fst := by decide
  intro key hkey
  exact List.mem_map.mp (hkeys key hkey)

/-- The number entries are the shared keys and the one under the name of the GUI. -/
theorem serverEntries_numeric : ∀ e ∈ serverEntries, e.type = .numeric →
    e.jsonPath ∈ numberKeys ∨ e.jsonPath = "transaction_duration".toList := by
  intro e he ht
  simp only [serverEntries, List.mem_cons, List.not_mem_nil, or_false] at he
  rcases he with rfl | rfl | rfl | rfl | rfl | rfl | rfl | rfl <;>
    first | (cases ht; done) | exact Or.inr rfl | exact Or.inl (by decide)

end Entries

section Server

variable {n n' : JsonNode}

/-- The settings of the server section agree if the numbers are integers and the key that the GUI
does not know is there. -/
theorem server_agrees_iff
    (hresult : ∀ e ∈ serverEntries, ∃ w, n'.getItem e.jsonPath = some w ∧ EntryResult n e w)
    (hframe : n'.getItem "trans_duration".toList = n.getItem "trans_duration".toList) :
    (∀ k ∈ serverSettings, n'.getItem k.1 = some ((n.getItem k.1).getD k.2)) ↔
      (∀ key ∈ numberKeys, ∀ q, n.getItem key = some (.number q) →
        ∃ m : Int, q = (m : Rat) ∧ InInt m) ∧
      (n.getItem "trans_duration".toList).isSome := by
  constructor
  · intro h
    constructor
    · intro key hkey q hq
      obtain ⟨k, hk, rfl⟩ := numberKeys_settings key hkey
      rcases serverSettings_entry k hk with htrans | ⟨e, he, hpath, -, hnumeric⟩
      · rw [htrans] at hkey
        exact absurd hkey (by decide)
      · obtain ⟨w, hw, hresult⟩ := hresult e he
        have hagree := h k hk
        rw [hpath] at hw
        rw [EntryResult, hpath, hq] at hresult
        simp only [if_pos (hnumeric.mpr hkey)] at hresult
        obtain ⟨q', hq', hrange, rfl⟩ := hresult
        rw [hw, hq, Option.getD_some, Option.some.injEq, Json.number.injEq] at hagree
        exact ⟨roundHalfEven q', hagree.symm, hrange⟩
    · have hagree := h ("trans_duration".toList, .number 60) (by simp [serverSettings])
      rw [hframe] at hagree
      rw [hagree]
      rfl
  · intro h k hk
    rcases serverSettings_entry k hk with htrans | ⟨e, he, hpath, hdefault, hnumeric⟩
    · obtain ⟨v, hv⟩ := Option.isSome_iff_exists.mp h.2
      rw [htrans, hframe, hv]
      rfl
    · obtain ⟨w, hw, hresult⟩ := hresult e he
      rw [hpath] at hw
      rw [hw]
      rw [EntryResult, hpath] at hresult
      cases hv : n.getItem k.1 with
      | none =>
        simp only [hv] at hresult
        rw [Except.ok.inj (hdefault.symm.trans hresult)]
        rfl
      | some v =>
        simp only [hv] at hresult
        split at hresult
        · rename_i ht
          obtain ⟨q, rfl, -, rfl⟩ := hresult
          obtain ⟨m, rfl, -⟩ := h.1 k.1 (hnumeric.mp ht) q hv
          rw [roundHalfEven_intCast]
          rfl
        · rw [hresult]
          rfl

end Server

section Switches

variable {n n₁ n₂ : JsonNode} {strings : List CString} {t : TabConfig}

/-- A switch comes through unless it is off. -/
theorem switch_agrees_iff {key : CString}
    (hload : n₁.getItem key = some ((n.getItem key).getD (.bool true)))
    (happly : n₂.getItem key = (n₁.getItem key).map (setBoolValue true)) :
    n₂.getItem key = some ((n.getItem key).getD (.bool true)) ↔
      n.getItem key ≠ some (.bool false) := by
  rw [happly, hload, Option.map_some, Option.some.injEq, setBoolValue_true_eq]
  cases n.getItem key <;> simp

theorem filter_strings_eq_iff (strings : List CString) :
    ((strings.filter fun s => s ≠ []).map Json.string = strings.map Json.string) ↔
      Json.string [] ∉ strings.map Json.string := by
  have hinj : Function.Injective Json.string := fun a b h => Json.string.inj h
  rw [hinj.list_map.eq_iff, List.filter_eq_self]
  simp only [List.mem_map, Json.string.injEq, exists_eq_right, ne_eq, decide_not,
    Bool.not_eq_eq_eq_not, Bool.not_true, decide_eq_false_iff_not]
  constructor
  · intro h hnil
    exact h [] hnil rfl
  · intro h s hs hnil
    exact h (hnil ▸ hs)

/-- The settings of the security section agree if no switch is off and no entry is empty. -/
theorem security_agrees_iff (hload : LoadedSecurity n n₁ strings) (happly : AppliedSecurity n₁ n₂ t)
    (henable : t.aclEnable = aclEnableEntry) (hmode : t.aclMode = aclModeEntry)
    (hdacl : t.daclEnable = daclEnableEntry) (hstrings : t.securityAclEntries = strings) :
    (∀ k ∈ securitySettings, n₂.getItem k.1 = some ((n.getItem k.1).getD k.2)) ↔
      (∀ key ∈ ["acl_enable".toList, "acl_blacklist".toList, "dynamic_acl".toList],
        n.getItem key ≠ some (.bool false)) ∧
      (∀ items, n.getItem "acl_entries".toList = some (.array items) → .string [] ∉ items) := by
  have hon : n₂.getItem "acl_enable".toList =
      some ((n.getItem "acl_enable".toList).getD (.bool true)) ↔
        n.getItem "acl_enable".toList ≠ some (.bool false) := by
    apply switch_agrees_iff hload.enable
    rw [happly.enable, henable]
    rfl
  have hblack : n₂.getItem "acl_blacklist".toList =
      some ((n.getItem "acl_blacklist".toList).getD (.bool true)) ↔
        n.getItem "acl_blacklist".toList ≠ some (.bool false) := by
    apply switch_agrees_iff hload.mode
    rw [happly.mode, hmode]
    rfl
  have hdyn : n₂.getItem "dynamic_acl".toList =
      some ((n.getItem "dynamic_acl".toList).getD (.bool true)) ↔
        n.getItem "dynamic_acl".toList ≠ some (.bool false) := by
    apply switch_agrees_iff hload.dacl
    rw [happly.dacl, hdacl]
    rfl
  have hlist : n₂.getItem "acl_entries".toList =
      some ((n.getItem "acl_entries".toList).getD (.array [])) ↔
        ∀ items, n.getItem "acl_entries".toList = some (.array items) → .string [] ∉ items := by
    have hentries : (n.getItem "acl_entries".toList).getD (.array []) =
        .array (strings.map Json.string) := hload.entries
    have hwritten : n₂.getItem "acl_entries".toList =
        some (.array ((strings.filter fun s => s ≠ []).map Json.string)) := by
      have hlist := happly.list
      rw [hstrings, hload.list, Option.map_some, refillArray_array] at hlist
      exact hlist
    rw [hwritten, hentries, Option.some.injEq, Json.array.injEq, filter_strings_eq_iff]
    cases hv : n.getItem "acl_entries".toList with
    | none =>
      rw [hv, Option.getD_none, Json.array.injEq] at hentries
      simp [← hentries]
    | some v =>
      rw [hv, Option.getD_some] at hentries
      rw [hentries]
      simp
  simp only [securitySettings, List.mem_cons, List.not_mem_nil, or_false, forall_eq_or_imp,
    forall_eq]
  rw [hlist, hon, hblack, hdyn, and_assoc, and_assoc]

end Switches

section Parts

variable {doc w : Json} {t : TabConfig}

theorem serverPart_agrees_iff (hp : LoadedParts doc t) (hw : WrittenParts t w) :
    (∀ k ∈ serverSettings, settingAt "server".toList k.1 w =
      some ((settingAt "server".toList k.1 doc).getD k.2)) ↔
      (∃ members, doc.getObjectItem "server".toList = some (.object members)) ∧
      (∀ key ∈ numberKeys, ∀ q, settingAt "server".toList key doc = some (.number q) →
        ∃ n : Int, q = (n : Rat) ∧ InInt n) ∧
      (settingAt "server".toList "trans_duration".toList doc).isSome := by
  obtain ⟨server, hserver, hitem⟩ := hw.server
  have hload := hp.server
  cases hdoc : doc.getObjectItem "server".toList with
  | none =>
    rw [hdoc] at hload
    obtain ⟨hnone, -⟩ := loadEntries_none hload
    rw [hnone, applyEntries_none] at hserver
    obtain rfl := Except.ok.inj hserver
    constructor
    · intro h
      have hfirst := h ("interface".toList, .string []) List.mem_cons_self
      rw [settingAt, hitem] at hfirst
      cases hfirst
    · rintro ⟨⟨members, hmembers⟩, -⟩
      cases hmembers
  | some j =>
    rw [hdoc] at hload
    obtain ⟨n', rfl, hvalue, hresult, hframe⟩ := entries_round serverEntries_distinct hload hserver
    have htrans := hframe "trans_duration".toList (by decide)
    constructor
    · intro h
      obtain ⟨members, hn'⟩ := object_of_settingAt hitem
        (h ("interface".toList, .string []) List.mem_cons_self)
      obtain rfl : j = .object members := hvalue.symm.trans hn'
      refine ⟨⟨members, rfl⟩, ?_⟩
      simp only [settingAt_object hdoc]
      refine (server_agrees_iff hresult htrans).mp ?_
      intro k hk
      rw [← settingAt_written hitem hn', h k hk, settingAt_object hdoc]
    · rintro ⟨⟨members, hmembers⟩, h⟩
      obtain rfl := Option.some.inj hmembers
      simp only [settingAt_object hdoc] at h
      intro k hk
      rw [settingAt_written hitem hvalue, settingAt_object hdoc]
      exact (server_agrees_iff hresult htrans).mpr h k hk

theorem securityPart_agrees_iff (hp : LoadedParts doc t) (hw : WrittenParts t w) :
    (∀ k ∈ securitySettings, settingAt "security".toList k.1 w =
      some ((settingAt "security".toList k.1 doc).getD k.2)) ↔
      (∃ members, doc.getObjectItem "security".toList = some (.object members)) ∧
      (∀ key ∈ ["acl_enable".toList, "acl_blacklist".toList, "dynamic_acl".toList],
        settingAt "security".toList key doc ≠ some (.bool false)) ∧
      (∀ items, settingAt "security".toList "acl_entries".toList doc = some (.array items) →
        .string [] ∉ items) := by
  have hload := hp.security
  have hitem := hw.security
  cases hdoc : doc.getObjectItem "security".toList with
  | none =>
    rw [hdoc] at hload
    exact absurd hload loadSecurity_none
  | some j =>
    rw [hdoc] at hload
    obtain ⟨n₁, hn₁, hloaded⟩ := loadSecurity_some hload
    have happlied : AppliedSecurity n₁ (applySecurity t n₁) t :=
      applySecurity_applied (by rw [hp.enable]) (by rw [hp.mode]) (by rw [hp.dacl])
    rw [hn₁] at hitem
    have hvalue : (applySecurity t n₁).value = j := happlied.value.trans hloaded.value
    have hagree := security_agrees_iff hloaded happlied hp.enable hp.mode hp.dacl rfl
    constructor
    · intro h
      obtain ⟨members, hmembers⟩ := object_of_settingAt hitem
        (h ("acl_enable".toList, .bool true) List.mem_cons_self)
      obtain rfl : j = .object members := hvalue.symm.trans hmembers
      refine ⟨⟨members, rfl⟩, ?_⟩
      simp only [settingAt_object hdoc]
      refine hagree.mp ?_
      intro k hk
      rw [← settingAt_written hitem hmembers, h k hk, settingAt_object hdoc]
    · rintro ⟨⟨members, hmembers⟩, h⟩
      obtain rfl := Option.some.inj hmembers
      simp only [settingAt_object hdoc] at h
      intro k hk
      rw [settingAt_written hitem hvalue, settingAt_object hdoc]
      exact hagree.mpr h k hk

theorem poolsPart_agrees_iff (hp : LoadedParts doc t) (hw : WrittenParts t w) :
    (childrenOf (w.getObjectItem "pools".toList)).map poolKeys =
      (childrenOf (doc.getObjectItem "pools".toList)).map poolKeys ↔
      ∀ p ∈ childrenOf (doc.getObjectItem "pools".toList), PoolKept p := by
  obtain ⟨itemss, hitemss, hitem⟩ := hw.pools
  obtain ⟨ps, hps, hnames, hoss⟩ := hp.loaded
  have hchildren : childrenOf (w.getObjectItem "pools".toList) =
      List.zipWith poolJson t.poolsPools itemss := by
    rw [hitem]
    apply childrenOf_refill
    intro hnil
    rw [hnil] at hps
    cases hps
    rw [hnames]
    rfl
  rw [hchildren, hnames, ← hp.pools]
  exact pools_agree_iff hps hoss hitemss

theorem served_of_guiType : ∀ e, guiType e ≠ .bin → served e = true := fun _ h =>
  decide_eq_true (serverType_of_guiType h)

theorem optionsPart_agrees_iff (hp : LoadedParts doc t) (hw : WrittenParts t w) :
    ((childrenOf (w.getObjectItem "options".toList)).filter served).map optionKeys =
      ((childrenOf (doc.getObjectItem "options".toList)).filter served).map optionKeys ↔
      ∀ e ∈ childrenOf (doc.getObjectItem "options".toList), served e = true → OptionKept e := by
  obtain ⟨items, hitems, hitem⟩ := hw.options
  have hload := hp.globalOptions
  have hchildren : childrenOf (w.getObjectItem "options".toList) = items := by
    rw [hitem]
    apply childrenOf_refill
    intro hnil
    rw [hnil] at hload
    have hempty : t.globalOptions = [] := (Except.ok.inj hload).symm
    rw [hempty] at hitems
    exact (Except.ok.inj hitems).symm
  have hfilter : items.filter served = items := List.filter_eq_self.mpr fun e he =>
    served_of_guiType e (guiType_of_written hload hitems e he)
  rw [hchildren, hfilter, ← hp.options]
  constructor
  · exact (optionKept_of_agree served_of_guiType hload hitems).2
  · intro hkept
    obtain ⟨ws, hws, hkeys⟩ := agree_of_optionKept served_of_guiType hload hkept
    obtain rfl := Except.ok.inj (hitems.symm.trans hws)
    exact hkeys

/-- The number under the key of the GUI is one that an `int` holds, or nothing is written. -/
theorem transactionDuration_range (hp : LoadedParts doc t) (hw : WrittenParts t w)
    {members : List (CString × Json)}
    (hdoc : doc.getObjectItem "server".toList = some (.object members)) {q : Rat}
    (hq : settingAt "server".toList "transaction_duration".toList doc = some (.number q)) :
    InInt (roundHalfEven q) := by
  obtain ⟨server, hserver, -⟩ := hw.server
  have hload := hp.server
  rw [hdoc] at hload
  obtain ⟨n', -, -, hresult, -⟩ := entries_round serverEntries_distinct hload hserver
  obtain ⟨v, -, hv⟩ := hresult transactionDurationEntry (by simp [serverEntries])
  rw [settingAt_object hdoc] at hq
  have hq' : (JsonNode.ofJson (.object members)).getItem transactionDurationEntry.jsonPath =
      some (.number q) := hq
  rw [EntryResult, hq'] at hv
  obtain ⟨q', hqq, hrange, -⟩ := hv
  rw [Json.number.inj hqq]
  exact hrange

/-- A document that is restorable can be written. -/
theorem settingsDocument_ok (hp : LoadedParts doc t) (h : Restorable doc) :
    ∃ w, settingsDocument t = .ok w := by
  obtain ⟨members, hdoc⟩ := h.server
  have hload := hp.server
  rw [hdoc] at hload
  obtain ⟨server, hserver⟩ := entries_round_ok serverEntries_distinct hload serverEntries_convert (by
    intro e he ht q hq
    have hq' : settingAt "server".toList e.jsonPath doc = some (.number q) := by
      rw [settingAt_object hdoc]
      exact hq
    rcases serverEntries_numeric e he ht with hkey | hkey
    · obtain ⟨n, rfl, hn⟩ := h.numbers _ hkey q hq'
      rwa [roundHalfEven_intCast]
    · rw [hkey] at hq'
      exact h.transactionDuration q hq')
  obtain ⟨ps, hps, -, hoss⟩ := hp.loaded
  rw [hp.pools] at hps
  obtain ⟨itemss, hitemss⟩ := applyPoolOptions_ok hps hoss h.pools
  have hglobal := hp.globalOptions
  rw [hp.options] at hglobal
  obtain ⟨items, hitems, -⟩ := agree_of_optionKept served_of_guiType hglobal h.options
  exact ⟨_, seq_ok.mpr ⟨server, hserver, seq_ok.mpr ⟨items, hitems,
    seq_ok.mpr ⟨itemss, hitemss, rfl⟩⟩⟩⟩

end Parts

/-- After a configuration file was accepted, applying the settings without an edit writes a document
that agrees with it exactly if the document is restorable. -/
theorem apply_agrees_iff {codec : JsonCodec} {text : CString} {doc : Json} {t : TabConfig}
    (hcodec : codec.LawfulOn (settingsDocument t = .ok ·)) (hparse : codec.parse text = some doc)
    (hload : loadConfigFile codec (some text) = .ok t) :
    (∃ file written, applySettings codec t = .ok file ∧ codec.parse file = some written ∧
      Agrees doc written) ↔ Restorable doc := by
  rw [loadConfigFile, hparse] at hload
  have hp := loadDocument_parts hload
  constructor
  · rintro ⟨file, written, hfile, hwritten, hagree⟩
    obtain ⟨w, hw, hfile⟩ := seq_ok.mp hfile
    obtain rfl := Except.ok.inj hfile
    obtain ⟨hparts, members, rfl⟩ := settingsDocument_parts hp.attached hw
    rw [hcodec.trailing _ _ hw] at hwritten
    obtain rfl := Option.some.inj hwritten
    obtain ⟨hserver, hnumbers, htrans⟩ := (serverPart_agrees_iff hp hparts).mp hagree.server
    obtain ⟨hsecurity, hswitches, hentries⟩ := (securityPart_agrees_iff hp hparts).mp hagree.security
    obtain ⟨serverMembers, hdoc⟩ := hserver
    exact {
      server := ⟨serverMembers, hdoc⟩
      security := hsecurity
      numbers := hnumbers
      transactionDuration := fun q hq => transactionDuration_range hp hparts hdoc hq
      transDuration := htrans
      switches := hswitches
      aclEntries := hentries
      options := (optionsPart_agrees_iff hp hparts).mp hagree.options
      pools := (poolsPart_agrees_iff hp hparts).mp hagree.pools }
  · intro h
    obtain ⟨w, hw⟩ := settingsDocument_ok hp h
    obtain ⟨hparts, members, rfl⟩ := settingsDocument_parts hp.attached hw
    refine ⟨_, _, seq_ok.mpr ⟨_, hw, rfl⟩, hcodec.trailing members ['\n'] hw, ?_⟩
    exact {
      server := (serverPart_agrees_iff hp hparts).mpr ⟨h.server, h.numbers, h.transDuration⟩
      security := (securityPart_agrees_iff hp hparts).mpr ⟨h.security, h.switches, h.aclEntries⟩
      pools := (poolsPart_agrees_iff hp hparts).mpr h.pools
      options := (optionsPart_agrees_iff hp hparts).mpr h.options }

/-- A document with one pool, an option of each kind that is kept, and no switch. -/
def plainDocument : Json := .object [
  ("server".toList, .object [("interface".toList, .string "eth0".toList),
    ("tick_delay".toList, .number 500), ("trans_duration".toList, .number 30)]),
  ("pools".toList, .array [.object [("name".toList, .string "LAN".toList),
    ("start".toList, .string "192.168.1.10".toList), ("end".toList, .string "192.168.1.20".toList),
    ("subnet".toList, .string "255.255.255.0".toList),
    ("options".toList, .array [optionJson 3 4 (.string "192.168.1.1".toList)])]]),
  ("options".toList, .array [optionJson 15 3 (.string "lan".toList), optionJson 58 4 (.number 600)]),
  ("security".toList, .object [("acl_entries".toList,
    .array [.string "02:00:00:00:00:09".toList])])]

theorem plainDocument_restorable : Restorable plainDocument where
  server := ⟨_, rfl⟩
  security := ⟨_, rfl⟩
  numbers key hkey q hq := by
    simp only [numberKeys, List.mem_cons, List.not_mem_nil, or_false] at hkey
    rcases hkey with rfl | rfl | rfl | rfl | rfl
    · exact ⟨500, (Json.number.inj (Option.some.inj hq)).symm, by decide⟩
    all_goals cases hq
  transactionDuration q hq := by cases hq
  transDuration := rfl
  switches key hkey := by
    simp only [List.mem_cons, List.not_mem_nil, or_false] at hkey
    rcases hkey with rfl | rfl | rfl <;> intro h <;> cases h
  aclEntries items hitems := by
    obtain rfl := Json.array.inj (Option.some.inj hitems)
    simp
  options e he _ := by
    have hmem : e ∈ [optionJson 15 3 (.string "lan".toList), optionJson 58 4 (.number 600)] := he
    simp only [List.mem_cons, List.not_mem_nil, or_false] at hmem
    rcases hmem with rfl | rfl
    · have hlength : ("lan".toList.length : Int).bmod (2 ^ 32) = 3 := by decide +kernel
      refine .string 15 "lan".toList (by decide) (by simp) ?_
      rw [hlength]
      rfl
    · exact .numeric 58 4 600 (by decide) (by decide) (by decide) (by decide) rfl
  pools p hp e he := by
    have hmem : e ∈ [optionJson 3 4 (.string "192.168.1.1".toList)] := by
      obtain rfl := List.mem_singleton.mp hp
      exact he
    obtain rfl := List.mem_singleton.mp hmem
    refine .ip 3 "192.168.1.1".toList (by decide) ?_ rfl
    decide +kernel

/-- It is accepted, and comes back as it was. -/
theorem plainDocument_agrees : ∃ t,
    loadConfigFile JsonText.codec (some (JsonText.codec.print plainDocument)) = .ok t ∧
      ∃ file written, applySettings JsonText.codec t = .ok file ∧
        JsonText.codec.parse file = some written ∧ Agrees plainDocument written := by
  have hparse := (JsonText.codec_lawful fun _ => True).inverse plainDocument trivial
  have hload : (loadDocument plainDocument).isOk = true := by decide +kernel
  obtain ⟨t, ht⟩ := isOk_eq_true.mp hload
  have haccept : loadConfigFile JsonText.codec (some (JsonText.codec.print plainDocument)) =
      .ok t := by
    simp only [loadConfigFile, hparse, ht]
  exact ⟨t, haccept,
    (apply_agrees_iff (JsonText.codec_lawful _) hparse haccept).mpr plainDocument_restorable⟩

/-- A document that switches the list off. -/
def aclOffDocument : Json := .object [
  ("server".toList, .object []), ("security".toList, .object [("acl_enable".toList, .bool false)])]

/-- The document is accepted, but what is written has the list on. -/
theorem aclOffDocument_changed : ∃ t,
    loadConfigFile JsonText.codec (some (JsonText.codec.print aclOffDocument)) = .ok t ∧
      (∃ file written, applySettings JsonText.codec t = .ok file ∧
        JsonText.codec.parse file = some written ∧
        settingAt "security".toList "acl_enable".toList aclOffDocument = some (.bool false) ∧
        settingAt "security".toList "acl_enable".toList written = some (.bool true)) ∧
      ¬∃ file written, applySettings JsonText.codec t = .ok file ∧
        JsonText.codec.parse file = some written ∧ Agrees aclOffDocument written := by
  have hparse := (JsonText.codec_lawful fun _ => True).inverse aclOffDocument trivial
  have hrun : (loadDocument aclOffDocument >>= settingsDocument).isOk = true := by decide +kernel
  obtain ⟨w, hrun⟩ := isOk_eq_true.mp hrun
  obtain ⟨t, ht, hw⟩ := seq_ok.mp hrun
  have hp := loadDocument_parts ht
  obtain ⟨hparts, members, rfl⟩ := settingsDocument_parts hp.attached hw
  have hfile : applySettings JsonText.codec t =
      .ok (JsonText.codec.print (.object members) ++ ['\n']) := seq_ok.mpr ⟨_, hw, rfl⟩
  have hback := (JsonText.codec_lawful fun _ => True).trailing members ['\n'] trivial
  have hload := hp.security
  obtain ⟨n₁, hn₁, hloaded⟩ := loadSecurity_some hload
  have happlied : AppliedSecurity n₁ (applySecurity t n₁) t :=
    applySecurity_applied (by rw [hp.enable]) (by rw [hp.mode]) (by rw [hp.dacl])
  have hon : settingAt "security".toList "acl_enable".toList (.object members) =
      some (.bool true) := by
    have hitem := hparts.security
    rw [hn₁] at hitem
    rw [settingAt_written hitem (happlied.value.trans hloaded.value)]
    have henable := happlied.enable
    rw [hloaded.enable, hp.enable] at henable
    exact henable
  refine ⟨t, by simp only [loadConfigFile, hparse, ht], ⟨_, _, hfile, hback, rfl, hon⟩, ?_⟩
  rintro ⟨file, written, hfile', hwritten, hagree⟩
  obtain rfl := Except.ok.inj (hfile.symm.trans hfile')
  obtain rfl := Option.some.inj (hback.symm.trans hwritten)
  have hagree := hagree.security ("acl_enable".toList, .bool true) List.mem_cons_self
  rw [hon] at hagree
  exact absurd hagree (by simp [settingAt, aclOffDocument, Json.getObjectItem, Json.sameKey])

end DHCPServer
