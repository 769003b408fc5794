import Mathlib.Data.Bool.AllAny
import DHCPServer.Gui.Document
import DHCPServer.Server.Config

namespace DHCPServer

/-- Values for the entries of the server section, each in the range of the server's field. -/
structure ServerValues where
  interface : CString
  interface_length : interface.length ≤ 255
  tickDelay : UInt32
  cacheSize : UInt32
  transDuration : UInt32
  leaseExpirationCheck : UInt32
  logVerbosity : UInt8
  leaseTime : UInt32
  dbEnable : Bool

/-- Text typed into the input of an entry. -/
def ConfEntry.typed (text : CString) (e : ConfEntry) : ConfEntry := { e with val := text }

/-- The position of the toggle of an entry. -/
def ConfEntry.toggled (on : Bool) (e : ConfEntry) : ConfEntry :=
  { e with valI := if on then 1 else 0 }

namespace ServerValues

/-- The edits that assign the values to the entries, in their order. -/
def edits (v : ServerValues) : List (ConfEntry → ConfEntry) := [
  ConfEntry.typed v.interface, ConfEntry.typed (decimal v.tickDelay.toNat),
  ConfEntry.typed (decimal v.cacheSize.toNat), ConfEntry.typed (decimal v.transDuration.toNat),
  ConfEntry.typed (decimal v.leaseExpirationCheck.toNat),
  ConfEntry.typed (decimal v.logVerbosity.toNat), ConfEntry.typed (decimal v.leaseTime.toNat),
  ConfEntry.toggled v.dbEnable]

/-- The server's fields have the values. -/
structure Matches (v : ServerValues) (c : ServerFields) : Prop where
  interface : c.interface = v.interface
  tickDelay : c.tickDelay = v.tickDelay
  cacheSize : c.cacheSize = v.cacheSize
  transDuration : c.transDuration = v.transDuration
  leaseExpirationCheck : c.leaseExpirationCheck = v.leaseExpirationCheck
  logVerbosity : c.logVerbosity = v.logVerbosity
  leaseTime : c.leaseTime = v.leaseTime
  dbEnable : c.dbEnable = if v.dbEnable then 1 else 0

/-- All numbers fit into an `int`. -/
structure FitsInt (v : ServerValues) : Prop where
  tickDelay : v.tickDelay.toNat < 2 ^ 31
  cacheSize : v.cacheSize.toNat < 2 ^ 31
  transDuration : v.transDuration.toNat < 2 ^ 31
  leaseExpirationCheck : v.leaseExpirationCheck.toNat < 2 ^ 31
  leaseTime : v.leaseTime.toNat < 2 ^ 31

/-- The fields with the name of the interface, before its addresses are looked for. -/
def named (v : ServerValues) : ServerFields := { untouchedFields with interface := v.interface }

end ServerValues

/-- The state after values have been assigned to the server entries. -/
def TabConfig.assign (t : TabConfig) (v : ServerValues) : TabConfig :=
  { t with configEntries := List.zipWith (fun edit e => edit e) v.edits t.configEntries }

/-- The transaction duration that stands under the key of the server, 60 if there is none. -/
def transDurationOf (old : Option Json) : UInt32 :=
  match old with
  | none => 60
  | some old => numberToUInt32 old.getNumberValue

/-- The values that reach the server from a loaded state: the document has a server object, the
options can be written, the numbers fit, the interface has its addresses, and the transaction
duration is what the document has under the key of the server, or the default of 60. -/
structure ServerValues.Transfers (v : ServerValues) (t : TabConfig) (ifap : List IfAddr) : Prop where
  server : ∃ members, t.config.getObjectItem "server".toList = some (.object members)
  options : ∀ os ∈ t.globalOptions :: t.poolOptions, Convertible os
  fits : v.FitsInt
  interface : (configGetInterfaceInfo ifap v.named).1 = true
  transDuration : v.transDuration =
    transDurationOf (settingAt "server".toList "trans_duration".toList t.config)

section Assign

variable {n n₁ n₂ : JsonNode} {e e' : ConfEntry} {v : ServerValues}

/-- What applying writes under the key of an edited entry. -/
theorem edited_written {edited : ConfEntry} (hl : LoadedEntry n n₁ e e')
    (ha : AppliedEntry n₁ n₂ edited) (hpath : edited.jsonPath = e'.jsonPath)
    (htype : edited.type = e'.type) :
    edited.type = e.type ∧ ∃ old w, e.type.Fits old ∧ edited.written old = .ok w ∧
      n₂.getItem e.jsonPath = some w := by
  obtain ⟨old, w, hold, hw, hnew⟩ := ha
  rw [hpath, hl.path] at hold hnew
  exact ⟨htype.trans hl.type, old, w, hl.fits old hold, hw, hnew⟩

theorem applied_text {text : CString} (hl : LoadedEntry n n₁ e e') (ht : e.type = .string)
    (ha : AppliedEntry n₁ n₂ (e'.typed text)) : n₂.getItem e.jsonPath = some (.string text) := by
  obtain ⟨htype, old, w, hfits, hw, hnew⟩ := edited_written hl ha rfl rfl
  rw [ht] at htype hfits
  obtain ⟨s, rfl⟩ := hfits
  simp only [ConfEntry.written, htype] at hw
  rw [hnew, ← Except.ok.inj hw]
  rfl

/-- A number is written as it was typed, if it fits. -/
theorem applied_number {k : Nat} (hl : LoadedEntry n n₁ e e') (ht : e.type = .numeric)
    (ha : AppliedEntry n₁ n₂ (e'.typed (decimal k))) :
    k < 2 ^ 31 ∧ n₂.getItem e.jsonPath = some (.number (k : Rat)) := by
  obtain ⟨htype, old, w, hfits, hw, hnew⟩ := edited_written hl ha rfl rfl
  rw [ht] at htype hfits
  obtain ⟨q, rfl⟩ := hfits
  simp only [ConfEntry.written, htype] at hw
  obtain ⟨m, hm, hw⟩ := seq_ok.mp hw
  have hread : stoi (decimal k) = .ok m := hm
  rw [stoi_decimal] at hread
  obtain ⟨rfl, hrange⟩ := checkInt_eq_ok.mp hread
  refine ⟨by have hlt := hrange.2; omega, ?_⟩
  rw [hnew, ← Except.ok.inj hw, Int.cast_natCast]

theorem applied_toggle {on : Bool} (hl : LoadedEntry n n₁ e e') (ht : e.type = .boolean)
    (ha : AppliedEntry n₁ n₂ (e'.toggled on)) : n₂.getItem e.jsonPath = some (.bool on) := by
  obtain ⟨htype, old, w, hfits, hw, hnew⟩ := edited_written hl ha rfl rfl
  rw [ht] at htype hfits
  obtain ⟨b, rfl⟩ := hfits
  simp only [ConfEntry.written, htype] at hw
  rw [hnew, ← Except.ok.inj hw]
  cases on <;> rfl

/-- The values under the keys of the section that the server reads. -/
structure ServerValues.WrittenTo (v : ServerValues) (n : JsonNode) : Prop where
  interface : n.getItem "interface".toList = some (.string v.interface)
  tickDelay : n.getItem "tick_delay".toList = some (.number (v.tickDelay.toNat : Rat))
  cacheSize : n.getItem "cache_size".toList = some (.number (v.cacheSize.toNat : Rat))
  leaseExpirationCheck : n.getItem "lease_expiration_check".toList =
    some (.number (v.leaseExpirationCheck.toNat : Rat))
  logVerbosity : n.getItem "log_verbosity".toList = some (.number (v.logVerbosity.toNat : Rat))
  leaseTime : n.getItem "lease_time".toList = some (.number (v.leaseTime.toNat : Rat))
  dbEnable : n.getItem "db_enable".toList = some (.bool v.dbEnable)

/-- The loaded entries one by one. -/
theorem loaded_entries {es : List ConfEntry}
    (h : List.Forall₂ (LoadedEntry n n₁) serverEntries es) :
    ∃ i td cs tr le lv lt db, es = [i, td, cs, tr, le, lv, lt, db] ∧
      LoadedEntry n n₁ interfaceEntry i ∧ LoadedEntry n n₁ tickDelayEntry td ∧
      LoadedEntry n n₁ cacheSizeEntry cs ∧ LoadedEntry n n₁ transactionDurationEntry tr ∧
      LoadedEntry n n₁ leaseExpirationCheckEntry le ∧ LoadedEntry n n₁ logVerbosityEntry lv ∧
      LoadedEntry n n₁ leaseTimeEntry lt ∧ LoadedEntry n n₁ dbEnableEntry db := by
  simp only [serverEntries, List.forall₂_cons_left_iff, List.forall₂_nil_left_iff] at h
  obtain ⟨i, _, hi, ⟨td, _, htd, ⟨cs, _, hcs, ⟨tr, _, htr, ⟨le, _, hle, ⟨lv, _, hlv,
    ⟨lt, _, hlt, ⟨db, _, hdb, rfl, rfl⟩, rfl⟩, rfl⟩, rfl⟩, rfl⟩, rfl⟩, rfl⟩, rfl⟩ := h
  exact ⟨i, td, cs, tr, le, lv, lt, db, rfl, hi, htd, hcs, htr, hle, hlv, hlt, hdb⟩

/-- Editing leaves the keys as they are. -/
theorem paths_edits (v : ServerValues) {es : List ConfEntry}
    (h : List.Forall₂ (LoadedEntry n n₁) serverEntries es) :
    (List.zipWith (fun edit e => edit e) v.edits es).map ConfEntry.jsonPath =
      es.map ConfEntry.jsonPath := by
  obtain ⟨i, td, cs, tr, le, lv, lt, db, rfl, -⟩ := loaded_entries h
  rfl

/-- After loading and assigning, applying writes the values under the keys of the GUI. -/
theorem assign_written {server server' : Option JsonNode} {es : List ConfEntry}
    (hload : loadEntries (some n) serverEntries = .ok (server, es))
    (happly : applyEntries server (List.zipWith (fun edit e => edit e) v.edits es) = .ok server') :
    ∃ n', server' = some n' ∧ n'.value = n.value ∧ v.WrittenTo n' ∧ v.FitsInt ∧
      n'.getItem "trans_duration".toList = n.getItem "trans_duration".toList := by
  obtain ⟨n₁, rfl, hvalue₁, hloaded, hframe₁⟩ := loadEntries_some serverEntries_distinct hload
  have hpaths := paths_edits v hloaded
  have hdistinct := (distinctPaths_loaded serverEntries_distinct hloaded).of_paths hpaths
  have hkey : ∀ e ∈ List.zipWith (fun edit e => edit e) v.edits es, ∃ e' ∈ es,
      e'.jsonPath = e.jsonPath := by
    intro e he
    have hmem := List.mem_map_of_mem (f := ConfEntry.jsonPath) he
    rw [hpaths] at hmem
    exact List.mem_map.mp hmem
  have hfound : ∀ e ∈ List.zipWith (fun edit e => edit e) v.edits es,
      (n₁.getItem e.jsonPath).isSome := by
    intro e he
    obtain ⟨e', he', hpath⟩ := hkey e he
    rw [← hpath]
    exact isSome_of_loaded hloaded e' he'
  obtain ⟨n', rfl, hvalue, happlied, hframe⟩ := applyEntries_some hdistinct hfound happly
  have htrans : n'.getItem "trans_duration".toList = n.getItem "trans_duration".toList := by
    rw [hframe _ ?_, hframe₁ _ (by decide)]
    intro e he
    obtain ⟨e', he', hpath⟩ := hkey e he
    obtain ⟨d, hd, hl⟩ := forall₂_partner hloaded.flip he'
    have hloadedPath : e'.jsonPath = d.jsonPath := hl.path
    have hother : ∀ d ∈ serverEntries, Json.sameKey d.jsonPath "trans_duration".toList = false := by
      decide
    rw [← hpath, hloadedPath]
    exact hother d hd
  obtain ⟨i, td, cs, tr, le, lv, lt, db, rfl, hi, htd, hcs, htr, hle, hlv, hlt, hdb⟩ :=
    loaded_entries hloaded
  simp only [ServerValues.edits, List.zipWith_cons_cons, List.zipWith_nil_right,
    List.forall_mem_cons] at happlied
  obtain ⟨hi', htd', hcs', htr', hle', hlv', hlt', hdb', -⟩ := happlied
  obtain ⟨htdFits, htdItem⟩ := applied_number htd rfl htd'
  obtain ⟨hcsFits, hcsItem⟩ := applied_number hcs rfl hcs'
  obtain ⟨htrFits, -⟩ := applied_number htr rfl htr'
  obtain ⟨hleFits, hleItem⟩ := applied_number hle rfl hle'
  obtain ⟨-, hlvItem⟩ := applied_number hlv rfl hlv'
  obtain ⟨hltFits, hltItem⟩ := applied_number hlt rfl hlt'
  exact ⟨n', rfl, hvalue.trans hvalue₁,
    ⟨applied_text hi rfl hi', htdItem, hcsItem, hleItem, hlvItem, hltItem, applied_toggle hdb rfl hdb'⟩,
    ⟨htdFits, hcsFits, htrFits, hleFits, hltFits⟩, htrans⟩

/-- An edited entry can be applied if its number can be converted. -/
theorem edited_ok {edited : ConfEntry} (hl : LoadedEntry n n₁ e e')
    (hpath : edited.jsonPath = e'.jsonPath) (htype : edited.type = e'.type)
    (hnumber : e.type = .numeric → ∃ k, stoi edited.val = .ok k) :
    ∃ old w, n₁.getItem edited.jsonPath = some old ∧ edited.written old = .ok w := by
  have hsame : edited.type = e.type := htype.trans hl.type
  have hfits := hl.fits _ hl.found
  rw [← hsame] at hfits
  obtain ⟨w, hw⟩ := ConfEntry.written_ok hfits fun h => hnumber (hsame ▸ h)
  exact ⟨_, w, by rw [hpath, hl.path, hl.found], hw⟩

theorem stoi_typed {k : Nat} (h : k < 2 ^ 31) : ∃ m, stoi (decimal k) = .ok m :=
  ⟨k, by rw [stoi_decimal]; exact checkInt_eq_ok.mpr ⟨rfl, by omega, by omega⟩⟩

/-- Values that fit can be applied. -/
theorem assign_ok {server : Option JsonNode} {es : List ConfEntry}
    (hload : loadEntries (some n) serverEntries = .ok (server, es)) (hfits : v.FitsInt) :
    ∃ server', applyEntries server (List.zipWith (fun edit e => edit e) v.edits es) =
      .ok server' := by
  obtain ⟨n₁, rfl, -, hloaded, -⟩ := loadEntries_some serverEntries_distinct hload
  have hdistinct := (distinctPaths_loaded serverEntries_distinct hloaded).of_paths
    (paths_edits v hloaded)
  have hverbosity : v.logVerbosity.toNat < 2 ^ 31 := by
    have hlt := v.logVerbosity.toNat_lt
    omega
  obtain ⟨i, td, cs, tr, le, lv, lt, db, rfl, hi, htd, hcs, htr, hle, hlv, hlt, hdb⟩ :=
    loaded_entries hloaded
  have hall : ∀ e ∈ List.zipWith (fun edit e => edit e) v.edits [i, td, cs, tr, le, lv, lt, db],
      ∃ old w, n₁.getItem e.jsonPath = some old ∧ e.written old = .ok w := by
    simp only [ServerValues.edits, List.zipWith_cons_cons, List.zipWith_nil_right,
      List.forall_mem_cons]
    refine ⟨?_, ?_, ?_, ?_, ?_, ?_, ?_, ?_, by simp⟩
    · exact edited_ok hi rfl rfl fun h => by cases h
    · exact edited_ok htd rfl rfl fun _ => stoi_typed hfits.tickDelay
    · exact edited_ok hcs rfl rfl fun _ => stoi_typed hfits.cacheSize
    · exact edited_ok htr rfl rfl fun _ => stoi_typed hfits.transDuration
    · exact edited_ok hle rfl rfl fun _ => stoi_typed hfits.leaseExpirationCheck
    · exact edited_ok hlv rfl rfl fun _ => stoi_typed hverbosity
    · exact edited_ok hlt rfl rfl fun _ => stoi_typed hfits.leaseTime
    · exact edited_ok hdb rfl rfl fun h => by cases h
  obtain ⟨n', hn'⟩ := applyEntries_ok hdistinct hall
  exact ⟨some n', hn'⟩

end Assign

section Server

variable {n : JsonNode} {v : ServerValues} {ifap : List IfAddr} {members : List (CString × Json)}

/-- Looking for the interface sets its addresses only. -/
theorem configGetInterfaceInfo_frame (ifap : List IfAddr) (v : ServerValues) :
    ∃ boundIp broadcastAddr, (configGetInterfaceInfo ifap v.named).2 =
      { v.named with boundIp := boundIp, broadcastAddr := broadcastAddr } :=
  interfaceLoop_frame ifap v.named

/-- The server takes the name of the interface and looks for its addresses. -/
theorem configLoadServerConfig_written (hobject : n.value = .object members)
    (hw : v.WrittenTo n) :
    configLoadServerConfig ifap (some n.toJson) untouchedFields =
      .ok (if (configGetInterfaceInfo ifap v.named).1 then
        (true, loadServerNumbers (some n.toJson) (configGetInterfaceInfo ifap v.named).2)
      else (false, (configGetInterfaceInfo ifap v.named).2)) := by
  have hitem : (some n.toJson).bind (Json.getObjectItem "interface".toList) =
      some (.string v.interface) := by
    rw [Option.bind_some, JsonNode.getObjectItem_toJson hobject, hw.interface]
  have hname : v.interface.take 255 = v.interface := List.take_of_length_le v.interface_length
  have huntouched : untouchedFields.interface = [] := rfl
  unfold configLoadServerConfig
  rw [if_pos huntouched, hitem]
  refine seq_ok.mpr ⟨v.interface, rfl, ?_⟩
  rw [hname]
  rfl

/-- Loading the numbers sets the fields to what is under the keys of the server. -/
theorem loadServerNumbers_written (hobject : n.value = .object members) (hw : v.WrittenTo n)
    (boundIp broadcastAddr : UInt32) :
    loadServerNumbers (some n.toJson)
      { v.named with boundIp := boundIp, broadcastAddr := broadcastAddr } =
      ⟨v.interface, boundIp, broadcastAddr, v.tickDelay, v.cacheSize,
        transDurationOf (n.getItem "trans_duration".toList), v.leaseExpirationCheck, v.leaseTime,
        v.logVerbosity, if v.dbEnable then 1 else 0⟩ := by
  have hitem : ∀ key, (some n.toJson).bind (Json.getObjectItem key) = n.getItem key := by
    intro key
    rw [Option.bind_some, JsonNode.getObjectItem_toJson hobject]
  have hzero : ¬(0 : UInt32) ≠ 0 := fun h => h rfl
  have hzero8 : ¬(0 : UInt8) ≠ 0 := fun h => h rfl
  simp only [loadServerNumbers, loadUInt32, loadUInt8, hitem, ServerValues.named, untouchedFields,
    if_neg hzero, if_neg hzero8, hw.tickDelay, hw.cacheSize, hw.leaseExpirationCheck,
    hw.logVerbosity, hw.leaseTime, hw.dbEnable, Json.getNumberValue, numberToUInt32_toNat,
    numberToUInt8_toNat, if_true]
  congr 1
  · cases n.getItem "trans_duration".toList <;> rfl
  · cases v.dbEnable <;> rfl

theorem matches_written_iff (hobject : n.value = .object members) (hw : v.WrittenTo n)
    {success : Bool} {c : ServerFields}
    (hload : configLoadServerConfig ifap (some n.toJson) untouchedFields = .ok (success, c)) :
    v.Matches c ↔ (configGetInterfaceInfo ifap v.named).1 = true ∧
      v.transDuration = transDurationOf (n.getItem "trans_duration".toList) := by
  obtain ⟨boundIp, broadcastAddr, hinfo⟩ := configGetInterfaceInfo_frame ifap v
  rw [configLoadServerConfig_written hobject hw, hinfo] at hload
  have hresult := Except.ok.inj hload
  cases hfound : (configGetInterfaceInfo ifap v.named).1 with
  | false =>
    rw [hfound] at hresult
    obtain ⟨-, rfl⟩ := Prod.mk.inj hresult
    -- without the interface the rest is not loaded, and the switch stays untouched
    constructor
    · intro h
      have hdb : configUntouched = if v.dbEnable then 1 else 0 := h.dbEnable
      cases hv : v.dbEnable <;> rw [hv] at hdb <;> cases hdb
    · rintro ⟨h, -⟩
      cases h
  | true =>
    rw [hfound, if_pos rfl, loadServerNumbers_written hobject hw] at hresult
    obtain ⟨-, rfl⟩ := Prod.mk.inj hresult
    constructor
    · intro h
      exact ⟨rfl, h.transDuration.symm⟩
    · rintro ⟨-, h⟩
      exact ⟨rfl, rfl, rfl, h.symm, rfl, rfl, rfl, rfl⟩

/-- Without the section nothing is loaded. -/
theorem not_matches_without {part : Option Json} (h : (part.bind (Json.getObjectItem "interface".toList)) = none)
    {success : Bool} {c : ServerFields}
    (hload : configLoadServerConfig ifap part untouchedFields = .ok (success, c)) :
    ¬v.Matches c := by
  have huntouched : untouchedFields.interface = [] := rfl
  unfold configLoadServerConfig at hload
  rw [if_pos huntouched, h] at hload
  obtain ⟨-, rfl⟩ := Prod.mk.inj (Except.ok.inj hload)
  intro hm
  have hdb : configUntouched = if v.dbEnable then 1 else 0 := hm.dbEnable
  cases hv : v.dbEnable <;> rw [hv] at hdb <;> cases hdb

end Server

/-- The pointers of an edited state lead where they led before. -/
theorem Attached.assign {t : TabConfig} (h : Attached t) (v : ServerValues) :
    Attached (t.assign v) :=
  ⟨h.server, h.security, h.pools, h.options, h.object⟩

section Transfer

variable {codec : JsonCodec} {doc : Json} {t : TabConfig} {v : ServerValues} {ifap : List IfAddr}

/-- What the server loads when the settings can be applied and it finds the interface. -/
theorem server_reads (hcodec : codec.LawfulOn (settingsDocument (t.assign v) = .ok ·))
    (hdoc : loadDocument doc = .ok t)
    (hserver : ∃ members, t.config.getObjectItem "server".toList = some (.object members))
    (hoptions : ∀ os ∈ t.globalOptions :: t.poolOptions, Convertible os) (hfits : v.FitsInt)
    (hfound : (configGetInterfaceInfo ifap v.named).1 = true) :
    ∃ text written boundIp broadcastAddr, applySettings codec (t.assign v) = .ok text ∧
      codec.parse text = some written ∧
      configLoadServerConfig ifap (written.getObjectItem "server".toList) untouchedFields =
        .ok (true, ⟨v.interface, boundIp, broadcastAddr, v.tickDelay, v.cacheSize,
          transDurationOf (settingAt "server".toList "trans_duration".toList t.config),
          v.leaseExpirationCheck, v.leaseTime, v.logVerbosity,
          if v.dbEnable then 1 else 0⟩) := by
  have hp := loadDocument_parts hdoc
  have hload := hp.server
  obtain ⟨ms, hpart⟩ := hserver
  rw [← hp.config, hpart] at hload
  obtain ⟨server, happly⟩ := assign_ok hload hfits
  obtain ⟨items, hitems⟩ := (applyOptions_ok_iff _).mpr (hoptions _ List.mem_cons_self)
  obtain ⟨itemss, hitemss⟩ := (applyPoolOptions_ok_iff _).mpr fun os hos =>
    hoptions os (List.mem_cons_of_mem _ hos)
  obtain ⟨w, hw⟩ : ∃ w, settingsDocument (t.assign v) = .ok w :=
    ⟨_, seq_ok.mpr ⟨server, happly, seq_ok.mpr ⟨items, hitems,
      seq_ok.mpr ⟨itemss, hitemss, rfl⟩⟩⟩⟩
  obtain ⟨hparts, members, rfl⟩ := settingsDocument_parts (hp.attached.assign v) hw
  obtain ⟨server', happly', hitem⟩ := hparts.server
  obtain rfl := Except.ok.inj (happly.symm.trans happly')
  obtain ⟨n', rfl, hvalue, hn', -, htrans⟩ := assign_written hload happly
  obtain ⟨boundIp, broadcastAddr, hinfo⟩ := configGetInterfaceInfo_frame ifap v
  refine ⟨_, _, boundIp, broadcastAddr, seq_ok.mpr ⟨_, hw, rfl⟩,
    hcodec.trailing members ['\n'] hw, ?_⟩
  rw [hitem, Option.map_some, configLoadServerConfig_written hvalue hn', hfound, if_pos rfl, hinfo,
    loadServerNumbers_written hvalue hn', htrans, settingAt_object hpart]

/-- Values that the server has got transfer. -/
theorem transfers_of_matches (hcodec : codec.LawfulOn (settingsDocument (t.assign v) = .ok ·))
    (hdoc : loadDocument doc = .ok t)
    {text : CString} {written : Json} {success : Bool} {c : ServerFields}
    (htext : applySettings codec (t.assign v) = .ok text) (hwritten : codec.parse text = some written)
    (hread : configLoadServerConfig ifap (written.getObjectItem "server".toList) untouchedFields =
      .ok (success, c)) (hmatch : v.Matches c) : v.Transfers t ifap := by
  have hp := loadDocument_parts hdoc
  have hload := hp.server
  obtain ⟨w, hw, htext⟩ := seq_ok.mp htext
  obtain rfl := Except.ok.inj htext
  obtain ⟨hparts, members, rfl⟩ := settingsDocument_parts (hp.attached.assign v) hw
  rw [hcodec.trailing _ _ hw] at hwritten
  obtain rfl := Option.some.inj hwritten
  obtain ⟨server, happly, hitem⟩ := hparts.server
  have hoptions : ∀ os ∈ t.globalOptions :: t.poolOptions, Convertible os := by
    obtain ⟨itemss, hitemss, -⟩ := hparts.pools
    obtain ⟨items, hitems, -⟩ := hparts.options
    rw [List.forall_mem_cons]
    exact ⟨(applyOptions_ok_iff _).mp ⟨items, hitems⟩,
      (applyPoolOptions_ok_iff _).mp ⟨itemss, hitemss⟩⟩
  rw [hitem] at hread
  cases hpart : doc.getObjectItem "server".toList with
  | none =>
    rw [hpart] at hload
    obtain ⟨hnone, -⟩ := loadEntries_none hload
    have happly' : applyEntries t.server (t.assign v).configEntries = .ok server := happly
    rw [hnone, applyEntries_none] at happly'
    obtain rfl := Except.ok.inj happly'
    exact absurd hmatch (not_matches_without rfl hread)
  | some j =>
    rw [hpart] at hload
    obtain ⟨n', rfl, hvalue, hn', hfits, htrans⟩ := assign_written hload happly
    by_cases hobject : ∃ ms, j = .object ms
    · obtain ⟨ms, rfl⟩ := hobject
      obtain ⟨hfound, hduration⟩ := (matches_written_iff hvalue hn' hread).mp hmatch
      have hdocServer : t.config.getObjectItem "server".toList = some (.object ms) := by
        rw [hp.config, hpart]
      refine ⟨⟨ms, hdocServer⟩, hoptions, hfits, hfound, ?_⟩
      rw [hduration, htrans, settingAt_object hdocServer]
    · -- the section is printed as something that has no keys
      have hmissing : (some n'.toJson).bind (Json.getObjectItem "interface".toList) = none := by
        rw [Option.bind_some]
        exact JsonNode.getObjectItem_toJson_none fun ms hms =>
          hobject ⟨ms, hvalue.symm.trans hms⟩
      exact absurd hmatch (not_matches_without hmissing hread)

theorem loadConfigFile_document {file : Option CString} (h : loadConfigFile codec file = .ok t) :
    ∃ doc, loadDocument doc = .ok t := by
  cases file with
  | none => exact ⟨emptyDocument, h⟩
  | some text =>
    rw [loadConfigFile] at h
    cases hparse : codec.parse text with
    | none =>
      rw [hparse] at h
      cases h
    | some doc =>
      rw [hparse] at h
      exact ⟨doc, h⟩

end Transfer

/-- After values were assigned to the entries of a loaded state, the settings are applied and the
server loads the file without flags: its fields have the values exactly for those that transfer. -/
theorem server_fields_iff {codec : JsonCodec} {file : Option CString} {t : TabConfig}
    {v : ServerValues} (hcodec : codec.LawfulOn (settingsDocument (t.assign v) = .ok ·))
    (hload : loadConfigFile codec file = .ok t) (ifap : List IfAddr) :
    (∃ text written success c, applySettings codec (t.assign v) = .ok text ∧
      codec.parse text = some written ∧
      configLoadServerConfig ifap (written.getObjectItem "server".toList) untouchedFields =
        .ok (success, c) ∧ v.Matches c) ↔ v.Transfers t ifap := by
  obtain ⟨doc, hdoc⟩ := loadConfigFile_document hload
  constructor
  · rintro ⟨text, written, success, c, htext, hwritten, hread, hmatch⟩
    exact transfers_of_matches hcodec hdoc htext hwritten hread hmatch
  · intro h
    obtain ⟨text, written, boundIp, broadcastAddr, htext, hwritten, hread⟩ :=
      server_reads hcodec hdoc h.server h.options h.fits h.interface
    exact ⟨text, written, true, _, htext, hwritten, hread,
      ⟨rfl, rfl, rfl, h.transDuration.symm, rfl, rfl, rfl, rfl⟩⟩

/-- An interface with its addresses. -/
def lanInterface : IfAddr := ⟨"eth0".toList, some ⟨true, 0xc0a80101⟩, some 0xc0a801ff⟩

/-- Values with a given transaction duration. -/
def lanValues (transDuration : UInt32) : ServerValues :=
  ⟨"eth0".toList, by decide, 500, 50, transDuration, 30, 5, 86400, false⟩

theorem loadEmptyDocument : ∃ t, loadConfigFile JsonText.codec none = .ok t ∧
    t.config = emptyDocument ∧ t.globalOptions = [] ∧ t.poolOptions = [] :=
  ⟨_, rfl, rfl, rfl, rfl⟩

theorem lanInterface_found (transDuration : UInt32) :
    (configGetInterfaceInfo [lanInterface] (lanValues transDuration).named).1 = true := rfl

theorem lanValues_fit {transDuration : UInt32} (h : transDuration.toNat < 2 ^ 31) :
    (lanValues transDuration).FitsInt := by
  have hothers : ∀ x ∈ [(500 : UInt32), 50, 30, 86400], x.toNat < 2 ^ 31 :=
    List.all_iff_forall_prop.mp (by decide)
  simp only [List.forall_mem_cons] at hothers
  obtain ⟨htick, hcache, hcheck, hlease, -⟩ := hothers
  exact ⟨htick, hcache, h, hcheck, hlease⟩

/-- Without a file, values with the default transaction duration reach the server. -/
theorem lanValues_transfer : ∃ t, loadConfigFile JsonText.codec none = .ok t ∧
    ∃ text written success c, applySettings JsonText.codec (t.assign (lanValues 60)) = .ok text ∧
      JsonText.codec.parse text = some written ∧
      configLoadServerConfig [lanInterface] (written.getObjectItem "server".toList)
        untouchedFields = .ok (success, c) ∧ (lanValues 60).Matches c := by
  obtain ⟨t, hload, hconfig, hglobal, hpools⟩ := loadEmptyDocument
  refine ⟨t, hload, (server_fields_iff (v := lanValues 60) (JsonText.codec_lawful _) hload
    [lanInterface]).mpr ⟨⟨[], by rw [hconfig]; rfl⟩, ?_, lanValues_fit (by decide),
      lanInterface_found 60, by rw [hconfig]; rfl⟩⟩
  rw [hglobal, hpools]
  simp [Convertible]

/-- A transaction duration of 120 seconds is written, but the server takes 60. -/
theorem transDuration_lost : ∃ t, loadConfigFile JsonText.codec none = .ok t ∧
    (∃ text written c, applySettings JsonText.codec (t.assign (lanValues 120)) = .ok text ∧
      JsonText.codec.parse text = some written ∧
      configLoadServerConfig [lanInterface] (written.getObjectItem "server".toList)
        untouchedFields = .ok (true, c) ∧ c.transDuration = 60) ∧
    ¬∃ text written success c, applySettings JsonText.codec (t.assign (lanValues 120)) = .ok text ∧
      JsonText.codec.parse text = some written ∧
      configLoadServerConfig [lanInterface] (written.getObjectItem "server".toList)
        untouchedFields = .ok (success, c) ∧ (lanValues 120).Matches c := by
  obtain ⟨t, hload, hconfig, hglobal, hpools⟩ := loadEmptyDocument
  have hdefault : transDurationOf (settingAt "server".toList "trans_duration".toList t.config) =
      60 := by
    rw [hconfig]
    rfl
  have hoptions : ∀ os ∈ t.globalOptions :: t.poolOptions, Convertible os := by
    rw [hglobal, hpools]
    simp [Convertible]
  obtain ⟨text, written, boundIp, broadcastAddr, htext, hwritten, hread⟩ :=
    server_reads (JsonText.codec_lawful _) hload ⟨[], by rw [hconfig]; rfl⟩ hoptions
      (lanValues_fit (by decide)) (lanInterface_found 120)
  refine ⟨t, hload, ⟨text, written, _, htext, hwritten, hread, hdefault⟩, ?_⟩
  rintro ⟨text', written', success, c, htext', hwritten', hread', hmatch⟩
  have htransfer := transfers_of_matches (JsonText.codec_lawful _) hload htext' hwritten' hread' hmatch
  have hduration := htransfer.transDuration
  rw [hdefault] at hduration
  exact absurd hduration (by decide)

end DHCPServer
