import DHCPServer.Framework.Fault
import DHCPServer.Gui.Commands

namespace DHCPServer

open Json

/-- Every reader of the text, with whatever behind it, gets the document. -/
def HoldsDocument (cjson : JsonCodec) (text : CString) (doc : Json) : Prop :=
  ∀ behind, cjson.parse (text ++ behind) = some doc

/-- The place that a `config set` is about, and the new value in words. -/
def setTarget (doc : Json) (c : ConfigCommand) : Option (Place × CString) :=
  if c.words[1]? = some "set".toList ∧ c.writable = true then do
    let path ← c.words[2]?
    let value ← c.words[3]?
    match configGetPath doc path with
    | .ok (some place) => some (place, value)
    | _ => none
  else none

/-- The value of an entry after a value in words has been written over it. -/
def overwritten (v : Json) (value : CString) : Json :=
  match setValue v value with
  | .ok (some (_, v')) => v'
  | _ => v

/-- What a command does to the entry at a place. -/
def entryAfter (doc : Json) (place : Place) (v : Json) (c : ConfigCommand) : Json :=
  match setTarget doc c with
  | some (p, value) => if p = place then overwritten v value else v
  | none => v

/-- The documents that the commands make of one, set after set. -/
inductive Edited (cs : List ConfigCommand) (doc : Json) : Json → Prop where
  | start : Edited cs doc doc
  | set {d v : Json} {r : Option CString × Json} {c : ConfigCommand} {place : Place}
      {value : CString} (h : Edited cs doc d) (hc : c ∈ cs) (ht : setTarget d c = some (place, value))
      (hv : d.valueAt place = some v) (hr : setValue v value = .ok (some r)) :
      Edited cs doc (d.modifyAt place (fun _ => r.2))

/-- The documents have the same paths. -/
def SamePaths (doc doc' : Json) : Prop := ∀ ss, doc'.locate ss = doc.locate ss

section Values

variable {v : Json} {value : CString}

theorem setValue_leaf {r : Option CString × Json} (h : setValue v value = .ok (some r)) :
    v.isLeaf = true ∧ r.2.isLeaf = true := by
  unfold setValue at h
  cases v with
  | string s =>
    cases h
    exact ⟨rfl, rfl⟩
  | number q =>
    simp only at h
    split at h
    · cases hn : stoi value with
      | error e => simp [hn, bind, Except.bind] at h
      | ok n =>
        rw [hn] at h
        cases h
        exact ⟨rfl, rfl⟩
    · cases h
      exact ⟨rfl, rfl⟩
  | bool b =>
    simp only at h
    split at h <;> cases h <;> exact ⟨rfl, rfl⟩
  | null | array | object => cases h

end Values

section Documents

variable {cjson : JsonCodec} {doc doc' : Json} {text text' : CString} {c : ConfigCommand}
  {cs : List ConfigCommand}

theorem HoldsDocument.print {printed : Json → Prop} (hc : cjson.LawfulOn printed)
    {members : List (List Char × Json)} (h : printed (.object members)) (tail : CString) :
    HoldsDocument cjson (cjson.print (.object members) ++ tail) (.object members) := by
  intro behind
  rw [List.append_assoc]
  exact hc.trailing members _ h

theorem HoldsDocument.unique (h : HoldsDocument cjson text doc) (h' : HoldsDocument cjson text doc') :
    doc = doc' := Option.some.inj ((h []).symm.trans (h' []))

theorem SamePaths.configGetPath (h : SamePaths doc doc') (path : CString) :
    configGetPath doc' path = configGetPath doc path := by
  unfold DHCPServer.configGetPath
  cases pathSteps (getlines '.' path) with
  | error e => rfl
  | ok ss =>
    show Except.ok (doc'.locate ss) = Except.ok (doc.locate ss)
    rw [h ss]

theorem SamePaths.setTarget (h : SamePaths doc doc') (c : ConfigCommand) :
    setTarget doc' c = setTarget doc c := by
  unfold DHCPServer.setTarget
  simp only [h.configGetPath]

theorem SamePaths.entryAfter (h : SamePaths doc doc') (place : Place) :
    entryAfter doc' place = entryAfter doc place := by
  funext v c
  unfold DHCPServer.entryAfter
  rw [h.setTarget]

theorem setTarget_eq_some {place : Place} {value : CString} :
    setTarget doc c = some (place, value) ↔ c.words[1]? = some "set".toList ∧ c.writable = true ∧
      ∃ path, c.words[2]? = some path ∧ c.words[3]? = some value ∧
        configGetPath doc path = .ok (some place) := by
  unfold setTarget
  by_cases hset : c.words[1]? = some "set".toList ∧ c.writable = true
  · rw [if_pos hset]
    simp only [bind, Option.bind_eq_some_iff, hset, true_and]
    apply exists_congr
    intro path
    apply and_congr_right
    intro _
    constructor
    · intro h
      obtain ⟨value', hvalue, h⟩ := h
      split at h
      · rename_i p hp
        obtain ⟨rfl, rfl⟩ := Prod.mk.inj (Option.some.inj h)
        exact ⟨hvalue, hp⟩
      · cases h
    · intro h
      exact ⟨value, h.1, by rw [h.2]⟩
  · rw [if_neg hset]
    constructor
    · intro h
      cases h
    · intro h
      exact absurd ⟨h.1, h.2.1⟩ hset

/-- What one command leaves in the file: the text that was there when no entry changes, or the
document in which the entry it is about is overwritten. -/
theorem commandConfig_file (h : HoldsDocument cjson text doc) {lines : List CString}
    (hrun : commandConfig cjson c text = .ok (lines, text')) :
    (text' = text ∧ ∀ place value v, setTarget doc c = some (place, value) →
      doc.valueAt place = some v → overwritten v value = v) ∨
    ∃ place value v r, setTarget doc c = some (place, value) ∧ doc.valueAt place = some v ∧
      setValue v value = .ok (some r) ∧
      text' = cjson.print (doc.modifyAt place fun _ => r.2) ++ ['\n'] := by
  simp only [commandConfig, h c.behind] at hrun
  cases hpath : c.words[2]? with
  | none =>
    simp only [hpath] at hrun
    cases hrun
    refine .inl ⟨rfl, fun place value v ht _ => ?_⟩
    obtain ⟨-, -, path, hp, -⟩ := setTarget_eq_some.mp ht
    rw [hpath] at hp
    cases hp
  | some path =>
    simp only [hpath] at hrun
    obtain ⟨loc, hloc, hrun⟩ := seq_ok.mp hrun
    -- a target is the place that the path leads to
    have htarget : ∀ {place value}, setTarget doc c = some (place, value) →
        loc = some place ∧ c.words[3]? = some value := by
      intro place value ht
      obtain ⟨-, -, path', hp, hv, hg⟩ := setTarget_eq_some.mp ht
      obtain rfl := Option.some.inj (hpath.symm.trans hp)
      exact ⟨Except.ok.inj (hloc.symm.trans hg), hv⟩
    cases loc with
    | none =>
      cases hrun
      refine .inl ⟨rfl, fun place value v ht _ => ?_⟩
      cases (htarget ht).1
    | some place =>
      obtain ⟨conf, hconf⟩ : ∃ conf, doc.valueAt place = some conf := by
        obtain ⟨ss, -, hss⟩ := seq_ok.mp hloc
        exact valueAt_locate (Except.ok.inj hss)
      simp only [configEntry, hconf, Option.getD_some] at hrun
      split at hrun
      · rename_i hget
        cases hrun
        refine .inl ⟨rfl, fun place value v ht _ => ?_⟩
        have hset := (setTarget_eq_some.mp ht).1
        rw [hget] at hset
        exact absurd hset (by decide)
      split at hrun
      · rename_i hset
        cases hvalue : c.words[3]? with
        | none =>
          simp only [hvalue] at hrun
          cases hrun
          refine .inl ⟨rfl, fun place value v ht _ => ?_⟩
          rw [(htarget ht).2] at hvalue
          cases hvalue
        | some value =>
          simp only [hvalue] at hrun
          obtain ⟨r, hr, hrun⟩ := seq_ok.mp hrun
          cases r with
          | none =>
            cases hrun
            refine .inl ⟨rfl, fun place' value' v ht hv => ?_⟩
            obtain ⟨hp, hv'⟩ := htarget ht
            obtain rfl := Option.some.inj hp
            obtain rfl := Option.some.inj (hvalue.symm.trans hv')
            obtain rfl := Option.some.inj (hconf.symm.trans hv)
            rw [overwritten, hr]
          | some r =>
            cases hw : c.writable with
            | false =>
              simp only [hw, Bool.false_eq_true, if_false] at hrun
              cases hrun
              refine .inl ⟨rfl, fun place value v ht _ => ?_⟩
              rw [(setTarget_eq_some.mp ht).2.1] at hw
              cases hw
            | true =>
              simp only [hw, if_true] at hrun
              cases hrun
              exact .inr ⟨place, value, conf, r, setTarget_eq_some.mpr
                ⟨hset, hw, path, hpath, hvalue, hloc⟩, hconf, hr, rfl⟩
      · rename_i hset
        cases hrun
        refine .inl ⟨rfl, fun place value v ht _ => ?_⟩
        exact absurd (setTarget_eq_some.mp ht).1 hset

/-- One command changes no path, and every entry only as it says. -/
theorem commandConfig_effect (hc : cjson.LawfulOn (Edited cs doc)) (hmem : c ∈ cs)
    {members : List (List Char × Json)} (hedited : Edited cs doc (.object members))
    (h : HoldsDocument cjson text (.object members)) {lines : List CString}
    (hrun : commandConfig cjson c text = .ok (lines, text')) :
    ∃ members', HoldsDocument cjson text' (.object members') ∧ Edited cs doc (.object members') ∧
      SamePaths (.object members) (.object members') ∧
      ∀ place v, valueAt place (.object members) = some v → v.isLeaf = true →
        valueAt place (.object members') = some (entryAfter (.object members) place v c) ∧
          (entryAfter (.object members) place v c).isLeaf = true := by
  rcases commandConfig_file h hrun with ⟨rfl, hsame⟩ | ⟨place, value, v, r, ht, hv, hr, rfl⟩
  · refine ⟨members, h, hedited, fun _ => rfl, fun place v hv hleaf => ?_⟩
    have hentry : entryAfter (.object members) place v c = v := by
      unfold entryAfter
      cases ht : setTarget (.object members) c with
      | none => rfl
      | some target =>
        show (if target.1 = place then overwritten v target.2 else v) = v
        split
        · rename_i hp
          exact hsame target.1 target.2 v ht (hp ▸ hv)
        · rfl
    rw [hentry]
    exact ⟨hv, hleaf⟩
  · obtain ⟨hleaf, hnew⟩ := setValue_leaf hr
    have hover : overwritten v value = r.2 := by rw [overwritten, hr]
    have hne : place ≠ [] := by
      rintro rfl
      obtain rfl := Option.some.inj hv
      cases hleaf
    obtain ⟨members', hobject⟩ : ∃ members',
        modifyAt place (fun _ => r.2) (.object members) = .object members' := by
      cases place with
      | nil => exact absurd rfl hne
      | cons i p => exact ⟨_, rfl⟩
    have hnext := hedited.set hmem ht hv hr
    rw [hobject] at hnext ⊢
    refine ⟨members', .print hc hnext _, hnext, ?_, ?_⟩
    · intro ss
      rw [← hobject]
      exact locate_modifyAt hv hleaf hnew ss
    · intro place' v' hv' hleaf'
      rw [← hobject, entryAfter, ht]
      show _ = some (if place = place' then overwritten v' value else v') ∧
        (if place = place' then overwritten v' value else v').isLeaf = true
      by_cases hp : place = place'
      · subst hp
        obtain rfl := Option.some.inj (hv.symm.trans hv')
        rw [if_pos rfl, hover, valueAt_modifyAt_self, hv]
        exact ⟨rfl, hnew⟩
      · rw [if_neg hp]
        have habove : ¬place' <+: place := by
          rintro ⟨q, rfl⟩
          have hq : q ≠ [] := by
            rintro rfl
            exact hp (List.append_nil _)
          rw [valueAt_below_leaf hv' hleaf' hq] at hv
          cases hv
        rcases valueAt_modifyAt_other (f := fun _ => r.2) habove (.object members) with
          ⟨q, rfl⟩ | heq
        · have hq : q ≠ [] := by
            rintro rfl
            exact hp (List.append_nil _).symm
          rw [valueAt_below_leaf hv hleaf hq] at hv'
          cases hv'
        · exact ⟨heq.trans hv', hleaf'⟩

end Documents

/-- Command lines that are run one after the other: all that is printed, and the text afterwards. -/
def configRun (cjson : JsonCodec) :
    List ConfigCommand → CString → Except GuiError (List CString × CString)
  | [], text => .ok ([], text)
  | c :: cs, text => do
    let (lines, text) ← commandConfig cjson c text
    let (more, text) ← configRun cjson cs text
    return (lines ++ more, text)

section Runs

variable {cjson : JsonCodec} {text text' : CString} {members : List (List Char × Json)}
  {cs : List ConfigCommand} {lines : List CString}

theorem configRun_effect {all : List ConfigCommand} {doc : Json}
    (hc : cjson.LawfulOn (Edited all doc)) (hsub : cs ⊆ all)
    (hedited : Edited all doc (.object members)) (h : HoldsDocument cjson text (.object members))
    (hrun : configRun cjson cs text = .ok (lines, text')) :
    ∃ members', HoldsDocument cjson text' (.object members') ∧
      SamePaths (.object members) (.object members') ∧
      ∀ place v, valueAt place (.object members) = some v → v.isLeaf = true →
        valueAt place (.object members') =
          some (cs.foldl (entryAfter (.object members) place) v) := by
  induction cs generalizing text members lines with
  | nil =>
    cases hrun
    exact ⟨members, h, fun _ => rfl, fun place v hv _ => hv⟩
  | cons c cs ih =>
    obtain ⟨⟨lines₁, text₁⟩, hfirst, hrun⟩ := seq_ok.mp hrun
    obtain ⟨⟨lines₂, text₂⟩, hrest, hrun⟩ := seq_ok.mp hrun
    cases hrun
    obtain ⟨members₁, hholds, hedited₁, hpaths, hentries⟩ :=
      commandConfig_effect hc (hsub List.mem_cons_self) hedited h hfirst
    obtain ⟨members', hholds', hpaths', hentries'⟩ :=
      ih (fun c hc => hsub (List.mem_cons_of_mem _ hc)) hedited₁ hholds hrest
    refine ⟨members', hholds', fun ss => (hpaths' ss).trans (hpaths ss), ?_⟩
    intro place v hv hleaf
    obtain ⟨hv₁, hleaf₁⟩ := hentries place v hv hleaf
    have hafter := hentries' place _ hv₁ hleaf₁
    rwa [hpaths.entryAfter place] at hafter

/-- Whatever `config` commands are typed one after the other, the file holds the document with the
paths it had; an entry has the value of the last `config set` that wrote it, and this is what
`config get` prints for every path that leads to it. -/
theorem config_commands_refine (hc : cjson.LawfulOn (Edited cs (.object members)))
    (h : HoldsDocument cjson text (.object members))
    (hrun : configRun cjson cs text = .ok (lines, text')) :
    ∃ members', HoldsDocument cjson text' (.object members') ∧
      SamePaths (.object members) (.object members') ∧
      ∀ place v, valueAt place (.object members) = some v → v.isLeaf = true →
        valueAt place (.object members') =
            some (cs.foldl (entryAfter (.object members) place) v) ∧
          ∀ c path, c.words[1]? = some "get".toList → c.words[2]? = some path →
            configGetPath (.object members) path = .ok (some place) →
            commandConfig cjson c text' =
              .ok ([shownValue (cs.foldl (entryAfter (.object members) place) v)], text') := by
  obtain ⟨members', hholds, hpaths, hentries⟩ := configRun_effect hc (List.Subset.refl cs) .start h hrun
  refine ⟨members', hholds, hpaths, fun place v hv hleaf => ?_⟩
  have hvalue := hentries place v hv hleaf
  refine ⟨hvalue, fun c path hget hpath hplace => ?_⟩
  have hfound : configGetPath (.object members') path = .ok (some place) :=
    (hpaths.configGetPath path).trans hplace
  simp only [commandConfig, hholds c.behind, hpath, hfound]
  show configEntry cjson c text' (.object members') place = _
  rw [configEntry, hvalue, if_pos hget]
  rfl

end Runs

section Example

/-- A configuration with two entries. -/
def twoEntries : List (List Char × Json) :=
  [("server".toList, .object [("lease_time".toList, .number 3600), ("interface".toList, .string [])])]

/-- A command on a file that can be written. -/
def typed (input : String) : ConfigCommand := ⟨input.toList, [], true, []⟩

/-- Two entries are set, the second time one of them to what is no number. -/
def threeCommands : List ConfigCommand :=
  [typed "config set server.interface eth0", typed "config set Server.0 60",
    typed "config set server.lease_time x"]

theorem config_commands_on_two_entries : ∃ lines text' members',
    configRun JsonText.codec threeCommands (JsonText.codec.print (.object twoEntries)) =
      .ok (lines, text') ∧
    HoldsDocument JsonText.codec text' (.object members') ∧
    valueAt [0, 0] (.object members') =
      some (threeCommands.foldl (entryAfter (.object twoEntries) [0, 0]) (.number 3600)) := by
  have hrun : (configRun JsonText.codec threeCommands
      (JsonText.codec.print (.object twoEntries))).toOption.any (fun _ => true) = true := by
    decide +kernel
  obtain ⟨⟨lines, text'⟩, hrun, -⟩ := exists_ok_of_any hrun
  have hholds : HoldsDocument JsonText.codec (JsonText.codec.print (.object twoEntries))
      (.object twoEntries) :=
    fun behind => (JsonText.codec_lawful fun _ => True).trailing _ behind trivial
  obtain ⟨members', hdoc, -, hentries⟩ :=
    config_commands_refine (JsonText.codec_lawful _) hholds hrun
  exact ⟨lines, text', members', hrun, hdoc, (hentries [0, 0] _ rfl rfl).1⟩

end Example

end DHCPServer
