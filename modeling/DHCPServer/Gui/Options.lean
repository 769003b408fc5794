import DHCPServer.Framework.Fault
import DHCPServer.Gui.TabConfig

namespace DHCPServer

/-- The tag and the type of an option of the file, as the GUI takes them. -/
def guiTag (e : Json) : Int := numberToInt (numberMember e "tag".toList)

def guiType (e : Json) : DhcpOptionType := guiTagToType (guiTag e)

/-- The type under which the server takes an option of the file. -/
def serverType (e : Json) : DhcpOptionType :=
  dhcpOptionTagToType (numberToUInt8 (numberMember e "tag".toList))

/-- The values under the keys of an option that the server reads. -/
def optionKeys (e : Json) : Option Json × Option Json × Option Json :=
  (e.getObjectItem "tag".toList, e.getObjectItem "lenght".toList, e.getObjectItem "value".toList)

/-- The options that loading and applying does not change: addresses of length 4, strings that are
not empty with their own length, and integers that an `int` holds. No Boolean option is among
them, and no option whose tag the GUI does not know. -/
inductive OptionKept (e : Json) : Prop
  | ip (tag : Int) (s : CString) (htype : guiTagToType tag = .ip)
      (hs : ipv4AddressToUint32 s ≠ 0)
      (hkeys : optionKeys e = (some (.number (tag : Rat)), some (.number 4), some (.string s)))
  | string (tag : Int) (s : CString) (htype : guiTagToType tag = .string) (hs : s ≠ [])
      (hkeys : optionKeys e = (some (.number (tag : Rat)),
        some (.number (((s.length : Int).bmod (2 ^ 32) : Int) : Rat)), some (.string s)))
  | numeric (tag lenght n : Int) (htype : guiTagToType tag = .numeric) (hzero : lenght ≠ 0)
      (hlenght : InInt lenght) (hn : InInt n)
      (hkeys : optionKeys e = (some (.number (tag : Rat)), some (.number (lenght : Rat)),
        some (.number (n : Rat))))

/-- The texts of numbers and switches can be converted, as far as the options are written. -/
def Convertible : List OptionEntry → Prop
  | [] => True
  | o :: os =>
    match guiTagToType o.tag with
    | .ip => ipv4AddressToUint32 o.value = 0 ∨ Convertible os
    | .numeric | .bool => (∃ n, stoi o.value = .ok n) ∧ Convertible os
    | .string | .bin => Convertible os

section Tags

/-- The tags that the GUI knows. -/
def guiTags : List Int :=
  [1, 3, 4, 5, 6, 7, 8, 9, 54, 10, 11, 16, 28, 32, 33, 41, 42, 44, 45, 48, 49, 50] ++
  [2, 13, 23, 24, 26, 22, 37, 38, 51, 46, 58, 59, 53, 35, 52] ++
  [19, 20, 31, 27, 30, 34, 29, 36, 39] ++ [21, 12, 40, 15, 77, 81, 17, 18, 47]

theorem mem_guiTags {tag : Int} (h : guiTagToType tag ≠ .bin) : tag ∈ guiTags := by
  by_contra hnot
  simp only [guiTags, List.mem_append, not_or] at hnot
  simp only [← List.contains_iff_mem] at hnot
  obtain ⟨⟨⟨hip, hnumeric⟩, hbool⟩, hstring⟩ := hnot
  apply h
  rw [guiTagToType, if_neg hip, if_neg hnumeric, if_neg hbool, if_neg hstring]

/-- A tag that the GUI knows is a byte, and has a type in the table of the server as well. -/
theorem guiTags_server :
    ∀ tag ∈ guiTags, 0 ≤ tag ∧ tag < 256 ∧ dhcpOptionTagToType (UInt8.ofInt tag) ≠ .bin := by
  decide +kernel

theorem numberToInt_range (q : Option Rat) : InInt (numberToInt q) := by
  cases q with
  | none => exact ⟨le_rfl, by decide⟩
  | some q =>
    rw [numberToInt]
    split
    · assumption
    · exact ⟨le_rfl, by decide⟩

theorem truncate_intCast (n : Int) : truncate (n : Rat) = n := by
  unfold truncate
  split <;> simp

theorem numberToInt_intCast {n : Int} (h : InInt n) : numberToInt (some (n : Rat)) = n := by
  rw [numberToInt, truncate_intCast, if_pos h]

theorem guiTag_of_keys {e : Json} {tag : Int} {l v : Option Json}
    (h : optionKeys e = (some (.number (tag : Rat)), l, v)) (htype : guiTagToType tag ≠ .bin) :
    guiTag e = tag := by
  have htag : e.getObjectItem "tag".toList = some (.number (tag : Rat)) := congrArg Prod.fst h
  have hrange := guiTags_server tag (mem_guiTags htype)
  unfold guiTag numberMember
  rw [htag]
  exact numberToInt_intCast ⟨by omega, by omega⟩

/-- What the GUI takes for an option of some type, the server takes for one, too. -/
theorem serverType_of_guiType {e : Json} (h : guiType e ≠ .bin) : serverType e ≠ .bin := by
  have hmem := mem_guiTags h
  obtain ⟨hlow, hhigh, hserver⟩ := guiTags_server _ hmem
  unfold guiTag numberToInt at hlow hhigh hserver
  unfold serverType numberToUInt8
  cases hq : numberMember e "tag".toList with
  | none =>
    rw [hq] at hlow
    exact absurd hlow (by decide)
  | some q =>
    simp only [hq] at hlow hserver ⊢
    by_cases hr : InInt (truncate q)
    · rwa [if_pos hr] at hserver
    · rw [if_neg hr] at hlow
      exact absurd hlow (by decide)

end Tags

section Load

variable {e : Json} {o : Option OptionEntry}

theorem fixedText_ne_nil (q : Option Rat) : fixedText q ≠ [] := by
  cases q with
  | none => decide
  | some q =>
    obtain ⟨c, s, hcs, -⟩ := decimal_cons (roundHalfEven q).natAbs
    rw [fixedText, hcs]
    simp

/-- What loading makes of an option, by its type. -/
theorem loadOption_ok (h : loadOption e = .ok o) :
    match guiType e with
    | .ip | .string => ∃ s, e.getObjectItem "value".toList = some (.string s) ∧
        o = if s = [] then none else some ⟨guiTag e, numberToInt (numberMember e "lenght".toList), s⟩
    | .numeric | .bool => o = some ⟨guiTag e, numberToInt (numberMember e "lenght".toList),
        fixedText (numberMember e "value".toList)⟩
    | .bin => o = none := by
  obtain ⟨value, hvalue, ho⟩ := seq_ok.mp h
  obtain rfl := (Except.ok.inj ho).symm
  change optionText (guiType e) e = .ok value at hvalue
  cases ht : guiType e with
  | ip =>
    simp only [ht, optionText] at hvalue
    cases hs : stringMember e "value".toList <;> rw [hs] at hvalue <;> cases hvalue
    exact ⟨_, stringMember_eq_some hs, rfl⟩
  | string =>
    simp only [ht, optionText] at hvalue
    cases hs : stringMember e "value".toList <;> rw [hs] at hvalue <;> cases hvalue
    exact ⟨_, stringMember_eq_some hs, rfl⟩
  | numeric =>
    simp only [ht, optionText] at hvalue
    cases hvalue
    exact if_neg (fixedText_ne_nil _)
  | bool =>
    simp only [ht, optionText] at hvalue
    cases hvalue
    exact if_neg (fixedText_ne_nil _)
  | bin =>
    simp only [ht, optionText] at hvalue
    cases hvalue
    exact if_pos rfl

theorem loadOptions_cons {es : List Json} {os : List OptionEntry}
    (h : loadOptions (e :: es) = .ok os) :
    ∃ o os', loadOption e = .ok o ∧ loadOptions es = .ok os' ∧ os = o.toList ++ os' := by
  obtain ⟨o, ho, h⟩ := seq_ok.mp h
  obtain ⟨os', hos, h⟩ := seq_ok.mp h
  exact ⟨o, os', ho, hos, (Except.ok.inj h).symm⟩

end Load

section Transfer

variable {e : Json} {es : List Json} {os : List OptionEntry} {ws : List Json}

theorem optionKeys_optionJson (tag lenght : Int) (value : Json) :
    optionKeys (optionJson tag lenght value) =
      (some (.number (tag : Rat)), some (.number (lenght : Rat)), some value) := rfl

/-- A written option is taken for one of the type it was written under. -/
theorem guiType_optionJson {tag : Int} {lenght : Int} {value : Json}
    (h : guiTagToType tag ≠ .bin) : guiType (optionJson tag lenght value) ≠ .bin := by
  rw [guiType, guiTag_of_keys (optionKeys_optionJson tag lenght value) h]
  exact h

/-- The length and the value that are written for an entry, by its type. -/
def WrittenAs (o : OptionEntry) (lenght : Int) (value : Json) : Prop :=
  match guiTagToType o.tag with
  | .ip => ipv4AddressToUint32 o.value ≠ 0 ∧ lenght = 4 ∧ value = .string o.value
  | .string => lenght = (o.value.length : Int).bmod (2 ^ 32) ∧ value = .string o.value
  | .numeric => ∃ n : Int, stoi o.value = .ok n ∧
      lenght = (if o.lenght = 0 then 4 else o.lenght) ∧ value = .number (n : Rat)
  | .bool => ∃ n : Int, stoi o.value = .ok n ∧ lenght = 1 ∧ value = .bool (decide (n ≠ 0))
  | .bin => False

/-- An entry of a known type either ends the list or is written as one item. -/
theorem applyOptions_item {o : OptionEntry} (htype : guiTagToType o.tag ≠ .bin)
    (h : applyOptions (o :: os) = .ok ws) :
    ws = [] ∨ ∃ lenght value ws', ws = optionJson o.tag lenght value :: ws' ∧
      applyOptions os = .ok ws' ∧ WrittenAs o lenght value := by
  unfold applyOptions at h
  unfold WrittenAs
  cases ht : guiTagToType o.tag with
  | ip =>
    simp only [ht] at h
    by_cases hzero : ipv4AddressToUint32 o.value = 0
    · rw [if_pos hzero] at h
      exact .inl (Except.ok.inj h).symm
    · rw [if_neg hzero] at h
      obtain ⟨items, hitems, hws⟩ := seq_ok.mp h
      exact .inr ⟨_, _, items, (Except.ok.inj hws).symm, hitems, hzero, rfl, rfl⟩
  | string =>
    simp only [ht] at h
    obtain ⟨items, hitems, hws⟩ := seq_ok.mp h
    exact .inr ⟨_, _, items, (Except.ok.inj hws).symm, hitems, rfl, rfl⟩
  | numeric =>
    simp only [ht] at h
    obtain ⟨n, hn, h⟩ := seq_ok.mp h
    obtain ⟨items, hitems, hws⟩ := seq_ok.mp h
    exact .inr ⟨_, _, items, (Except.ok.inj hws).symm, hitems, n, hn, rfl, rfl⟩
  | bool =>
    simp only [ht] at h
    obtain ⟨n, hn, h⟩ := seq_ok.mp h
    obtain ⟨items, hitems, hws⟩ := seq_ok.mp h
    exact .inr ⟨_, _, items, (Except.ok.inj hws).symm, hitems, n, hn, rfl, rfl⟩
  | bin => exact absurd ht htype

/-- A loaded option that is written with the keys it was loaded from is kept. -/
theorem optionKept_of_written {entry : OptionEntry} {lenght : Int} {value : Json}
    (hload : loadOption e = .ok (some entry)) (hwritten : WrittenAs entry lenght value)
    (hkeys : optionKeys (optionJson entry.tag lenght value) = optionKeys e) : OptionKept e := by
  have hshape := loadOption_ok hload
  unfold WrittenAs at hwritten
  cases ht : guiType e with
  | ip =>
    simp only [ht] at hshape
    obtain ⟨s, hs, ho⟩ := hshape
    split at ho
    · cases ho
    obtain rfl := Option.some.inj ho
    have htype : guiTagToType (guiTag e) = .ip := ht
    simp only [htype] at hwritten
    obtain ⟨hzero, rfl, rfl⟩ := hwritten
    exact .ip (guiTag e) s htype hzero (by rw [← hkeys, optionKeys_optionJson]; rfl)
  | string =>
    simp only [ht] at hshape
    obtain ⟨s, hs, ho⟩ := hshape
    split at ho
    · cases ho
    rename_i hne
    obtain rfl := Option.some.inj ho
    have htype : guiTagToType (guiTag e) = .string := ht
    simp only [htype] at hwritten
    obtain ⟨hlenght, hvalue⟩ := hwritten
    rw [hlenght, hvalue, optionKeys_optionJson] at hkeys
    exact .string (guiTag e) s htype hne hkeys.symm
  | numeric =>
    simp only [ht] at hshape
    obtain rfl := Option.some.inj hshape
    have htype : guiTagToType (guiTag e) = .numeric := ht
    simp only [htype] at hwritten
    obtain ⟨n, hn, rfl, rfl⟩ := hwritten
    have hlen := numberToInt_range (numberMember e "lenght".toList)
    refine .numeric (guiTag e) _ n htype ?_ ?_ (stoi_range hn)
      (by rw [← hkeys, optionKeys_optionJson])
    · split
      · decide
      · assumption
    · split
      · decide
      · exact hlen
  | bool =>
    simp only [ht] at hshape
    obtain rfl := Option.some.inj hshape
    have htype : guiTagToType (guiTag e) = .bool := ht
    simp only [htype] at hwritten
    obtain ⟨n, hn, rfl, rfl⟩ := hwritten
    -- a Boolean value has no number to load, so its text cannot be converted
    have hvalue : some (Json.bool (decide (n ≠ 0))) = e.getObjectItem "value".toList :=
      congrArg (fun k => k.2.2) hkeys
    rw [numberMember, ← hvalue] at hn
    have hnan : stoi (fixedText none) = .ok n := hn
    rw [stoi_nan] at hnan
    cases hnan
  | bin =>
    simp only [ht] at hshape
    cases hshape

/-- An option that is loaded with a value has a type that the GUI knows. -/
theorem guiTagToType_loaded {entry : OptionEntry} (hload : loadOption e = .ok (some entry)) :
    entry.tag = guiTag e ∧ guiType e ≠ .bin := by
  have hshape := loadOption_ok hload
  cases ht : guiType e with
  | ip | string =>
    simp only [ht] at hshape
    obtain ⟨s, -, ho⟩ := hshape
    split at ho
    · cases ho
    obtain rfl := Option.some.inj ho
    exact ⟨rfl, by decide⟩
  | numeric | bool =>
    simp only [ht] at hshape
    obtain rfl := Option.some.inj hshape
    exact ⟨rfl, by decide⟩
  | bin =>
    simp only [ht] at hshape
    cases hshape

/-- What an option that was loaded with a value becomes: an invalid address ends the list, anything
else is one item, which has the keys it was loaded from only if the option is kept. -/
theorem applyOptions_cons {entry : OptionEntry} (hload : loadOption e = .ok (some entry))
    (h : applyOptions (entry :: os) = .ok ws) :
    ws = [] ∨ ∃ w ws', ws = w :: ws' ∧ applyOptions os = .ok ws' ∧ guiType w ≠ .bin ∧
      (optionKeys w = optionKeys e → OptionKept e) := by
  obtain ⟨htag, htype⟩ := guiTagToType_loaded hload
  have hknown : guiTagToType entry.tag ≠ .bin := by
    rw [htag]
    exact htype
  rcases applyOptions_item hknown h with hnil | ⟨lenght, value, ws', rfl, hws, hwritten⟩
  · exact .inl hnil
  · exact .inr ⟨_, ws', rfl, hws, guiType_optionJson hknown, optionKept_of_written hload hwritten⟩

variable {rel : Json → Bool}

/-- If what is written has the keys of all relevant options that were loaded, these are all kept. -/
theorem optionKept_of_agree (hrel : ∀ e, guiType e ≠ .bin → rel e = true)
    (hload : loadOptions es = .ok os) (h : applyOptions os = .ok ws) :
    ws.length ≤ (es.filter rel).length ∧
      (ws.map optionKeys = (es.filter rel).map optionKeys →
        ∀ e ∈ es, rel e = true → OptionKept e) := by
  -- an option that is dropped or ends the list makes what is written too short
  induction es generalizing os ws with
  | nil =>
    cases hload
    cases h
    exact ⟨le_rfl, fun _ e he => absurd he List.not_mem_nil⟩
  | cons e es ih =>
    obtain ⟨o, os', ho, hos, rfl⟩ := loadOptions_cons hload
    cases o with
    | none =>
      obtain ⟨hlen, hkept⟩ := ih hos h
      cases hre : rel e with
      | false =>
        have hfilter : (e :: es).filter rel = es.filter rel := List.filter_cons_of_neg (by simp [hre])
        rw [hfilter]
        refine ⟨hlen, fun hkeys a ha hra => ?_⟩
        rcases List.mem_cons.mp ha with rfl | ha
        · rw [hre] at hra
          cases hra
        · exact hkept hkeys a ha hra
      | true =>
        have hfilter : (e :: es).filter rel = e :: es.filter rel := List.filter_cons_of_pos hre
        rw [hfilter]
        refine ⟨Nat.le_succ_of_le hlen, fun hkeys => ?_⟩
        have hsame := congrArg List.length hkeys
        simp only [List.length_map, List.length_cons] at hsame
        omega
    | some entry =>
      have hre : rel e = true := hrel e (guiTagToType_loaded ho).2
      have hfilter : (e :: es).filter rel = e :: es.filter rel := List.filter_cons_of_pos hre
      rw [hfilter]
      rcases applyOptions_cons ho h with rfl | ⟨w, ws', rfl, hws, -, hkeep⟩
      · exact ⟨Nat.zero_le _, fun hkeys => by simp at hkeys⟩
      · obtain ⟨hlen, hkept⟩ := ih hos hws
        refine ⟨Nat.succ_le_succ hlen, fun hkeys a ha hra => ?_⟩
        obtain ⟨hhead, htail⟩ := List.cons.inj hkeys
        rcases List.mem_cons.mp ha with rfl | ha
        · exact hkeep hhead
        · exact hkept htail a ha hra

/-- Nothing is written under a tag that the GUI does not know. -/
theorem guiType_of_written (hload : loadOptions es = .ok os) (h : applyOptions os = .ok ws) :
    ∀ w ∈ ws, guiType w ≠ .bin := by
  induction es generalizing os ws with
  | nil =>
    cases hload
    cases h
    simp
  | cons e es ih =>
    obtain ⟨o, os', ho, hos, rfl⟩ := loadOptions_cons hload
    cases o with
    | none => exact ih hos h
    | some entry =>
      rcases applyOptions_cons ho h with rfl | ⟨w, ws', rfl, hws, hw, -⟩
      · simp
      · intro a ha
        rcases List.mem_cons.mp ha with rfl | ha
        · exact hw
        · exact ih hos hws a ha

/-- An option that is kept is loaded and written with the keys it had. -/
theorem applyOptions_kept {o : Option OptionEntry} (hk : OptionKept e)
    (hload : loadOption e = .ok o) (h : applyOptions os = .ok ws) :
    ∃ w, applyOptions (o.toList ++ os) = .ok (w :: ws) ∧ optionKeys w = optionKeys e := by
  have hshape := loadOption_ok hload
  cases hk with
  | ip tag s htype hs hkeys =>
    have htag : guiTag e = tag := guiTag_of_keys hkeys (by rw [htype]; decide)
    have hvalue : e.getObjectItem "value".toList = some (.string s) :=
      congrArg (fun k => k.2.2) hkeys
    have hne : s ≠ [] := by
      rintro rfl
      exact hs rfl
    simp only [guiType, htag, htype, hvalue] at hshape
    obtain ⟨s', hs', ho⟩ := hshape
    obtain rfl : s = s' := by simpa using hs'
    rw [if_neg hne] at ho
    subst ho
    refine ⟨optionJson tag 4 (.string s), ?_, by rw [optionKeys_optionJson, hkeys]; rfl⟩
    simp only [Option.toList_some, List.singleton_append, applyOptions, htype, if_neg hs, h]
    rfl
  | string tag s htype hs hkeys =>
    have htag : guiTag e = tag := guiTag_of_keys hkeys (by rw [htype]; decide)
    have hvalue : e.getObjectItem "value".toList = some (.string s) :=
      congrArg (fun k => k.2.2) hkeys
    simp only [guiType, htag, htype, hvalue] at hshape
    obtain ⟨s', hs', ho⟩ := hshape
    obtain rfl : s = s' := by simpa using hs'
    rw [if_neg hs] at ho
    subst ho
    refine ⟨optionJson tag ((s.length : Int).bmod (2 ^ 32)) (.string s), ?_,
      by rw [optionKeys_optionJson, hkeys]⟩
    simp only [Option.toList_some, List.singleton_append, applyOptions, htype, h]
    rfl
  | numeric tag lenght n htype hzero hlenght hn hkeys =>
    have htag : guiTag e = tag := guiTag_of_keys hkeys (by rw [htype]; decide)
    have hvalue : numberMember e "value".toList = some (n : Rat) := by
      have hv : e.getObjectItem "value".toList = some (.number (n : Rat)) :=
        congrArg (fun k => k.2.2) hkeys
      rw [numberMember, hv]
      rfl
    have hlen : numberToInt (numberMember e "lenght".toList) = lenght := by
      have hl : e.getObjectItem "lenght".toList = some (.number (lenght : Rat)) :=
        congrArg (fun k => k.2.1) hkeys
      rw [numberMember, hl]
      exact numberToInt_intCast hlenght
    have hread : stoi (fixedText (some (n : Rat))) = .ok n := by
      rw [stoi_fixedText, roundHalfEven_intCast]
      exact checkInt_eq_ok.mpr ⟨rfl, hn⟩
    simp only [guiType, htag, htype, hvalue, hlen] at hshape
    subst hshape
    refine ⟨optionJson tag lenght (.number (n : Rat)), ?_, by rw [optionKeys_optionJson, hkeys]⟩
    simp only [Option.toList_some, List.singleton_append, applyOptions, htype, hread, h, if_neg hzero]
    rfl

theorem OptionKept.guiType (h : OptionKept e) : guiType e ≠ .bin := by
  have hof : ∀ {tag : Int} {l v : Option Json}, optionKeys e = (some (.number (tag : Rat)), l, v) →
      guiTagToType tag ≠ .bin → DHCPServer.guiType e ≠ .bin := by
    intro tag l v hkeys htype
    rw [DHCPServer.guiType, guiTag_of_keys hkeys htype]
    exact htype
  cases h with
  | ip tag s htype _ hkeys => exact hof hkeys (by rw [htype]; decide)
  | string tag s htype _ hkeys => exact hof hkeys (by rw [htype]; decide)
  | numeric tag lenght n htype _ _ _ hkeys => exact hof hkeys (by rw [htype]; decide)

/-- If all relevant options are kept, they are written with the keys they had. -/
theorem agree_of_optionKept (hrel : ∀ e, guiType e ≠ .bin → rel e = true)
    (hload : loadOptions es = .ok os) (hkept : ∀ e ∈ es, rel e = true → OptionKept e) :
    ∃ ws, applyOptions os = .ok ws ∧ ws.map optionKeys = (es.filter rel).map optionKeys := by
  induction es generalizing os with
  | nil =>
    cases hload
    exact ⟨[], rfl, rfl⟩
  | cons e es ih =>
    obtain ⟨o, os', ho, hos, rfl⟩ := loadOptions_cons hload
    obtain ⟨ws, hws, hkeys⟩ := ih hos fun a ha => hkept a (List.mem_cons_of_mem _ ha)
    cases hre : rel e with
    | false =>
      have hbin : guiType e = .bin := by
        by_contra hne
        rw [hrel e hne] at hre
        cases hre
      have hshape := loadOption_ok ho
      simp only [hbin] at hshape
      subst hshape
      exact ⟨ws, hws, by rw [List.filter_cons_of_neg (by simp [hre]), hkeys]⟩
    | true =>
      obtain ⟨w, hw, hwe⟩ := applyOptions_kept (hkept e List.mem_cons_self hre) ho hws
      exact ⟨w :: ws, hw, by rw [List.filter_cons_of_pos hre, List.map_cons, List.map_cons, hwe, hkeys]⟩

end Transfer

section Convert

/-- Options can be written exactly if their texts can be converted. -/
theorem applyOptions_ok_iff (os : List OptionEntry) :
    (∃ ws, applyOptions os = .ok ws) ↔ Convertible os := by
  induction os with
  | nil => exact ⟨fun _ => trivial, fun _ => ⟨[], rfl⟩⟩
  | cons o os ih =>
    have hrest : ∀ f : List Json → List Json,
        (∃ ws, (applyOptions os >>= fun items => .ok (f items)) = .ok ws) ↔ Convertible os := by
      intro f
      rw [exists_seq_ok, ← ih]
      exact ⟨fun ⟨items, hitems, _⟩ => ⟨items, hitems⟩, fun ⟨items, hitems⟩ => ⟨items, hitems, _, rfl⟩⟩
    have hnumber : ∀ f : Int → List Json → List Json,
        (∃ ws, (stoi o.value >>= fun n => applyOptions os >>= fun items => .ok (f n items)) =
          .ok ws) ↔ (∃ n, stoi o.value = .ok n) ∧ Convertible os := by
      intro f
      simp only [exists_seq_ok (x := stoi o.value), hrest, exists_and_right]
    unfold applyOptions Convertible
    cases guiTagToType o.tag with
    | ip =>
      dsimp only
      split
      · rename_i hzero
        exact ⟨fun _ => Or.inl hzero, fun _ => ⟨[], rfl⟩⟩
      · rename_i hzero
        rw [or_iff_right hzero]
        exact hrest _
    | string => exact hrest _
    | numeric => exact hnumber _
    | bool => exact hnumber _
    | bin => exact ih

theorem applyPoolOptions_ok_iff (oss : List (List OptionEntry)) :
    (∃ itemss, applyPoolOptions oss = .ok itemss) ↔ ∀ os ∈ oss, Convertible os := by
  induction oss with
  | nil => exact ⟨fun _ => by simp, fun _ => ⟨[], rfl⟩⟩
  | cons os oss ih =>
    rw [List.forall_mem_cons, ← ih, ← applyOptions_ok_iff]
    constructor
    · rintro ⟨itemss, h⟩
      obtain ⟨items, hitems, h⟩ := seq_ok.mp h
      obtain ⟨rest, hrest, -⟩ := seq_ok.mp h
      exact ⟨⟨items, hitems⟩, rest, hrest⟩
    · rintro ⟨⟨items, hitems⟩, rest, hrest⟩
      exact ⟨_, seq_ok.mpr ⟨items, hitems, seq_ok.mpr ⟨rest, hrest, rfl⟩⟩⟩

end Convert

end DHCPServer
