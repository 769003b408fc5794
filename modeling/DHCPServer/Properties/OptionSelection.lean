import DHCPServer.Framework.FirstMatch
import DHCPServer.Packet.Option

namespace DHCPServer

/-- Options as they are configured: of the type of their tag, with values that fit. -/
def WellConfigured (options : List DhcpOption) : Prop :=
  ∀ o ∈ options, o.type = dhcpOptionTagToType o.tag ∧ o.lenght.toNat ≤ optionMaxLenght

section Selection

variable (blacklisted : List UInt8) (globalOptions poolOptions : List DhcpOption)

/-- The tags of an array that are not blacklisted. -/
def allowedTags (tags : List UInt8) : List UInt8 :=
  (zeroTerminated tags).filter fun tag => !(zeroTerminated blacklisted).contains tag

/-- Neither the pool nor the global list has an option with the tag. -/
def Unconfigured (tag : UInt8) : Prop :=
  (∀ o ∈ poolOptions, o.tag ≠ tag) ∧ ∀ o ∈ globalOptions, o.tag ≠ tag

instance (tag : UInt8) : Decidable (Unconfigured globalOptions poolOptions tag) :=
  inferInstanceAs (Decidable (_ ∧ _))

/-- `c` is the first option with the tag in the list of the pool, or in the global list if the pool
has none. -/
def ConfiguredAs (tag : UInt8) (c : DhcpOption) : Prop :=
  dhcpOptionRetrieve poolOptions tag = some c ∨
    ((∀ o ∈ poolOptions, o.tag ≠ tag) ∧ dhcpOptionRetrieve globalOptions tag = some c)

/-- The tags that are to be selected, in the order of their arrays: the message type, what is
required, and what is requested and configured. -/
def selectedTags (requested required : List UInt8) : List UInt8 :=
  Tag.dhcpMessageType :: (allowedTags blacklisted required ++
    (allowedTags blacklisted requested).filter fun tag =>
      !decide (Unconfigured globalOptions poolOptions tag))

/-- A destination list is the selection for the arrays. -/
structure Selected (requested required : List UInt8) (type : UInt8) (dest : List DhcpOption) :
    Prop where
  tags : dest.map DhcpOption.tag =
    (selectedTags blacklisted globalOptions poolOptions requested required).eraseDups
  messageType : ∀ o ∈ dest, o.tag = Tag.dhcpMessageType → o.lenght = 1 ∧ o.bytes = [type]
  values : ∀ o ∈ dest, o.tag ≠ Tag.dhcpMessageType →
    ∃ c, ConfiguredAs globalOptions poolOptions o.tag c ∧
      o.type = c.type ∧ o.lenght = c.lenght ∧ o.bytes = c.bytes

/-- Copies of the options that are configured for the tags, which are not blacklisted. -/
def chosenOptions (tags : List UInt8) : List DhcpOption :=
  ((tags.filter fun tag => !isOptionBlacklisted blacklisted tag).filterMap
    (configuredOption globalOptions poolOptions)).map dhcpOptionCopy

end Selection

section Loops

variable {blacklisted : List UInt8} {globalOptions poolOptions dest res : List DhcpOption}
  {tags : List UInt8}

theorem chosenOptions_cons (tag : UInt8) (tags : List UInt8) :
    chosenOptions blacklisted globalOptions poolOptions (tag :: tags) =
      if isOptionBlacklisted blacklisted tag then
        chosenOptions blacklisted globalOptions poolOptions tags
      else match configuredOption globalOptions poolOptions tag with
        | none => chosenOptions blacklisted globalOptions poolOptions tags
        | some o => dhcpOptionCopy o :: chosenOptions blacklisted globalOptions poolOptions tags := by
  unfold chosenOptions
  by_cases hb : isOptionBlacklisted blacklisted tag = true
  · simp [hb]
  · cases hc : configuredOption globalOptions poolOptions tag with
    | none => simp [hb, hc]
    | some o => simp [hb, hc]

/-- The loop over the requested tags adds the chosen options one by one. -/
theorem addRequested_eq (tags : List UInt8) (dest : List DhcpOption) :
    addRequested blacklisted globalOptions poolOptions tags dest =
      (chosenOptions blacklisted globalOptions poolOptions tags).foldl dhcpOptionAdd dest := by
  induction tags generalizing dest with
  | nil => rfl
  | cons tag tags ih =>
    rw [addRequested, chosenOptions_cons]
    split
    · exact ih dest
    · cases configuredOption globalOptions poolOptions tag with
      | none => exact ih dest
      | some o => exact ih _

/-- The loop over the required tags does the same where it does not fail. -/
theorem addRequired_some
    (h : addRequired blacklisted globalOptions poolOptions tags dest = some res) :
    res = (chosenOptions blacklisted globalOptions poolOptions tags).foldl dhcpOptionAdd dest := by
  induction tags generalizing dest with
  | nil => exact (Option.some.inj h).symm
  | cons tag tags ih =>
    rw [addRequired] at h
    rw [chosenOptions_cons]
    split at h
    · rename_i hb
      rw [if_pos hb]
      exact ih h
    · rename_i hb
      rw [if_neg hb]
      cases hc : configuredOption globalOptions poolOptions tag with
      | none => simp [hc] at h
      | some o =>
        simp only [hc] at h
        exact ih h

theorem addRequired_none : addRequired blacklisted globalOptions poolOptions tags dest = none ↔
    ∃ tag ∈ tags, isOptionBlacklisted blacklisted tag = false ∧
      configuredOption globalOptions poolOptions tag = none := by
  induction tags generalizing dest with
  | nil => simp [addRequired]
  | cons tag tags ih =>
    rw [addRequired]
    by_cases hb : isOptionBlacklisted blacklisted tag = true
    · simp [hb, ih]
    · cases hc : configuredOption globalOptions poolOptions tag with
      | none => simp [hb, hc]
      | some o => simp [hb, hc, ih]

theorem configuredOption_eq_none {tag : UInt8} :
    configuredOption globalOptions poolOptions tag = none ↔
      Unconfigured globalOptions poolOptions tag := by
  rw [Unconfigured, ← dhcpOptionRetrieve_eq_none, ← dhcpOptionRetrieve_eq_none, configuredOption]
  cases dhcpOptionRetrieve poolOptions tag with
  | none => simp
  | some o => simp

theorem configuredOption_eq_some {tag : UInt8} {c : DhcpOption} :
    configuredOption globalOptions poolOptions tag = some c ↔
      ConfiguredAs globalOptions poolOptions tag c := by
  rw [ConfiguredAs, ← dhcpOptionRetrieve_eq_none, configuredOption]
  cases dhcpOptionRetrieve poolOptions tag with
  | none => simp
  | some o => simp

theorem tags_add {o : DhcpOption} : (dhcpOptionAdd dest o).map DhcpOption.tag =
    if o.tag ∈ dest.map DhcpOption.tag then dest.map DhcpOption.tag
    else dest.map DhcpOption.tag ++ [o.tag] := by
  have hmem : (dhcpOptionRetrieve dest o.tag).isSome = true ↔ o.tag ∈ dest.map DhcpOption.tag := by
    simp [dhcpOptionRetrieve]
  unfold dhcpOptionAdd
  by_cases h : o.tag ∈ dest.map DhcpOption.tag
  · rw [if_pos (hmem.mpr h), if_pos h]
  · rw [if_neg (mt hmem.mp h), if_neg h]
    simp

/-- Options added one by one: the first of each tag is kept, in the order of the list. -/
theorem tags_foldl_add (options dest : List DhcpOption) (l : List UInt8)
    (h : dest.map DhcpOption.tag = l.eraseDups) :
    (options.foldl dhcpOptionAdd dest).map DhcpOption.tag =
      (l ++ options.map DhcpOption.tag).eraseDups := by
  induction options generalizing dest l with
  | nil => simpa using h
  | cons o options ih =>
    have hnext : (dhcpOptionAdd dest o).map DhcpOption.tag = (l ++ [o.tag]).eraseDups := by
      rw [tags_add, eraseDups_concat, h]
      simp
    rw [List.foldl_cons, ih _ _ hnext]
    simp

/-- The tags of the chosen options are those of the array that are allowed and configured. -/
theorem tags_chosenOptions : (chosenOptions blacklisted globalOptions poolOptions tags).map
    DhcpOption.tag = (tags.filter fun tag => !isOptionBlacklisted blacklisted tag).filter fun tag =>
      !decide (Unconfigured globalOptions poolOptions tag) := by
  unfold chosenOptions
  generalize (tags.filter fun tag => !isOptionBlacklisted blacklisted tag) = allowed
  induction allowed with
  | nil => rfl
  | cons tag allowed ih =>
    cases hc : configuredOption globalOptions poolOptions tag with
    | none =>
      have hun := configuredOption_eq_none.mp hc
      simpa [hc, hun] using ih
    | some o =>
      have hconf : ¬Unconfigured globalOptions poolOptions tag := by
        rw [← configuredOption_eq_none, hc]
        exact Option.some_ne_none o
      simpa [hc, hconf, configuredOption_tag hc] using ih

end Loops

section Build

variable {blacklisted requested required : List UInt8} {type : UInt8}
  {globalOptions poolOptions dest : List DhcpOption}

theorem bytes_copy (c : DhcpOption) (h : c.lenght.toNat ≤ optionMaxLenght) :
    (dhcpOptionCopy c).bytes = c.bytes := by
  have hlen : (c.value.data.take c.lenght.toNat).length = c.lenght.toNat := by
    rw [List.length_take, Buffer.length_data, Nat.min_eq_left h]
  have hwritten := Buffer.take_data_write (Buffer.zero optionMaxLenght)
    (c.value.data.take c.lenght.toNat) (hlen.trans_le h)
  rwa [hlen] at hwritten

theorem isOptionBlacklisted_eq (tag : UInt8) :
    isOptionBlacklisted blacklisted tag = (zeroTerminated blacklisted).contains tag := rfl

/-- A build that succeeds adds the chosen options behind the message type. -/
theorem build_eq (h : dhcpOptionBuildRequiredOptions blacklisted globalOptions poolOptions []
    requested required type = some dest) :
    dest = (chosenOptions blacklisted globalOptions poolOptions (zeroTerminated required) ++
      chosenOptions blacklisted globalOptions poolOptions (zeroTerminated requested)).foldl
        dhcpOptionAdd [dhcpOptionNewValues Tag.dhcpMessageType 1 [type]] := by
  obtain ⟨mid, hmid, rfl⟩ := Option.map_eq_some_iff.mp h
  rw [addRequested_eq, addRequired_some hmid, List.foldl_append]
  rfl

theorem build_none : dhcpOptionBuildRequiredOptions blacklisted globalOptions poolOptions []
    requested required type = none ↔
      ∃ tag ∈ zeroTerminated required, tag ∉ zeroTerminated blacklisted ∧
        Unconfigured globalOptions poolOptions tag := by
  rw [dhcpOptionBuildRequiredOptions, Option.map_eq_none_iff, addRequired_none]
  simp only [configuredOption_eq_none, isOptionBlacklisted_eq, List.contains_eq_mem,
    decide_eq_false_iff_not]

/-- The tags of a list that is built. -/
theorem build_tags (h : dhcpOptionBuildRequiredOptions blacklisted globalOptions poolOptions []
    requested required type = some dest) :
    dest.map DhcpOption.tag =
      (selectedTags blacklisted globalOptions poolOptions requested required).eraseDups := by
  have hrequired : ∀ tag ∈ allowedTags blacklisted required,
      ¬Unconfigured globalOptions poolOptions tag := by
    intro tag htag hun
    obtain ⟨hmem, hallowed⟩ := List.mem_filter.mp htag
    have hnone : dhcpOptionBuildRequiredOptions blacklisted globalOptions poolOptions [] requested
        required type = none := build_none.mpr ⟨tag, hmem, by simpa using hallowed, hun⟩
    rw [hnone] at h
    cases h
  have hall : (allowedTags blacklisted required).filter (fun tag =>
      !decide (Unconfigured globalOptions poolOptions tag)) = allowedTags blacklisted required :=
    List.filter_eq_self.mpr fun tag htag => by simpa using hrequired tag htag
  rw [build_eq h, tags_foldl_add _ _ [Tag.dhcpMessageType] rfl, List.map_append,
    tags_chosenOptions, tags_chosenOptions]
  change ([Tag.dhcpMessageType] ++ ((allowedTags blacklisted required).filter _ ++ _)).eraseDups = _
  rw [hall]
  rfl

/-- Every option that is built but the message type is the copy of a configured one. -/
theorem build_copies (h : dhcpOptionBuildRequiredOptions blacklisted globalOptions poolOptions []
    requested required type = some dest) :
    ∀ o ∈ dest, o.tag ≠ Tag.dhcpMessageType →
      ∃ c, ConfiguredAs globalOptions poolOptions o.tag c ∧ o = dhcpOptionCopy c := by
  refine build_all (Q := fun o => o.tag ≠ Tag.dhcpMessageType →
    ∃ c, ConfiguredAs globalOptions poolOptions o.tag c ∧ o = dhcpOptionCopy c) ?_ ?_ h
  · intro hne
    exact absurd rfl hne
  · intro tag c hc _
    rw [dhcpOptionCopy_tag, configuredOption_tag hc]
    exact ⟨c, configuredOption_eq_some.mp hc, rfl⟩

theorem build_only_messageType (h : dhcpOptionBuildRequiredOptions blacklisted globalOptions
    poolOptions [] requested required type = some dest) {o : DhcpOption} (ho : o ∈ dest)
    (htag : o.tag = Tag.dhcpMessageType) :
    o = dhcpOptionNewValues Tag.dhcpMessageType 1 [type] := by
  have hfound := find?_of_nodup (build_distinct h) ho
  rw [htag] at hfound
  exact Option.some.inj (hfound.symm.trans (build_messageType h))

theorem ConfiguredAs.mem {tag : UInt8} {c : DhcpOption}
    (h : ConfiguredAs globalOptions poolOptions tag c) : c ∈ poolOptions ∨ c ∈ globalOptions := by
  rcases h with h | ⟨-, h⟩
  · exact .inl (List.mem_of_find?_eq_some h)
  · exact .inr (List.mem_of_find?_eq_some h)

/-- The build fails exactly for a required option that is allowed and not configured; otherwise it
makes the selection. -/
theorem build_required_options_exact (blacklisted requested required : List UInt8) (type : UInt8)
    (globalOptions poolOptions : List DhcpOption) (hglobal : WellConfigured globalOptions)
    (hpool : WellConfigured poolOptions) :
    (dhcpOptionBuildRequiredOptions blacklisted globalOptions poolOptions [] requested required
      type = none ↔ ∃ tag ∈ zeroTerminated required, tag ∉ zeroTerminated blacklisted ∧
        Unconfigured globalOptions poolOptions tag) ∧
    ∀ dest, dhcpOptionBuildRequiredOptions blacklisted globalOptions poolOptions [] requested
      required type = some dest →
        Selected blacklisted globalOptions poolOptions requested required type dest := by
  refine ⟨build_none, ?_⟩
  intro dest h
  constructor
  case tags => exact build_tags h
  case messageType =>
    intro o ho htag
    rw [build_only_messageType h ho htag]
    have hone : [type].length ≤ optionMaxLenght := (by decide : 1 ≤ optionMaxLenght)
    exact ⟨rfl, Buffer.take_data_write (Buffer.zero optionMaxLenght) [type] hone⟩
  case values =>
    intro o ho htag
    obtain ⟨c, hc, rfl⟩ := build_copies h o ho htag
    obtain ⟨hctype, hclen⟩ :
        c.type = dhcpOptionTagToType c.tag ∧ c.lenght.toNat ≤ optionMaxLenght := by
      rcases hc.mem with hmem | hmem
      · exact hpool c hmem
      · exact hglobal c hmem
    exact ⟨c, hc, hctype.symm, rfl, bytes_copy c hclen⟩

/-- The global options of the configuration below. -/
def networkOptions : List DhcpOption :=
  [dhcpOptionNewValues 1 4 [0, 0, 0, 112], dhcpOptionNewValues 3 4 [64, 80, 0, 0],
    dhcpOptionNewValues 12 8 [77, 121, 68, 101, 118, 105, 99, 101]]

/-- The lease time comes from the pool; the required option 1 is not repeated and the requested
option 50 is blacklisted. -/
theorem network_selection : ∃ dest, dest.map DhcpOption.tag = [53, 1, 51, 3, 12] ∧
    Selected [50, 250, 0] networkOptions [dhcpOptionNewValues 51 4 (le32Bytes 5000)]
      [3, 1, 12, 50, 0] [1, 51, 0] 5 dest := by
  have hrun : (dhcpOptionBuildRequiredOptions [50, 250, 0] networkOptions
      [dhcpOptionNewValues 51 4 (le32Bytes 5000)] [] [3, 1, 12, 50, 0] [1, 51, 0] 5).any
        (fun dest => dest.map DhcpOption.tag == [53, 1, 51, 3, 12]) = true := by decide +kernel
  obtain ⟨dest, hdest, htags⟩ := (Option.any_eq_true _ _).mp hrun
  have hglobal : WellConfigured networkOptions := by
    intro o ho
    simp only [networkOptions, List.mem_cons, List.not_mem_nil, or_false] at ho
    rcases ho with rfl | rfl | rfl <;> exact ⟨rfl, by decide⟩
  have hpool : WellConfigured [dhcpOptionNewValues 51 4 (le32Bytes 5000)] := by
    intro o ho
    rw [List.mem_singleton.mp ho]
    exact ⟨rfl, by decide⟩
  exact ⟨dest, by simpa using htags,
    (build_required_options_exact _ _ _ 5 _ _ hglobal hpool).2 dest hdest⟩

end Build

end DHCPServer
