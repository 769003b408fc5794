import DHCPServer.Properties.InspectLog
import DHCPServer.Properties.Replies

namespace DHCPServer

/-- The bytes of the value of the option at an index. -/
def valueBytes (raw : Buffer optionsFieldSize) (i : Nat) : List UInt8 :=
  raw.readFrom (i + 2) (raw.get (i + 1)).toNat

def binaryText (bytes : List UInt8) : CString :=
  bytes.flatMap fun b => decimal b.toNat ++ " ".toList

def booleanText (b : UInt8) : CString := if b = 0 then "FALSE".toList else "TRUE".toList

/-- A parsed value as the page would write one of this type, and the name of the format. -/
def DhcpOption.texts (o : DhcpOption) : CString × CString :=
  match o.type with
  | .numeric => (decimal o.number.toNat, "Number".toList)
  | .ip => (uint32ToIpv4Address o.ip, "IP Address".toList)
  | .bool => (booleanText (o.value.get 0), "Boolean".toList)
  | .string => (o.bytes.map fun b => Char.ofNat b.toNat, "String".toList)
  | .bin => (binaryText o.bytes, "Binary".toList)

/-- The page takes the option at an index for the value that the parser keeps. It has another type
for option 14, and it makes an address of the four bytes and a boolean of the one byte behind the
length, whatever the length says. -/
def SameValue (raw : Buffer optionsFieldSize) (i : Nat) : Prop :=
  match dhcpOptionTagToType (raw.get i) with
  | .numeric => raw.get i ≠ 14
  | .ip => uint32FromUint8Array (raw.readFrom (i + 2) 4) = uint32FromUint8Array (valueBytes raw i)
  | .bool => raw.get (i + 1) ≠ 0 ∨ raw.get (i + 2) = 0
  | .string | .bin => True

/-- The line for the option at an index. Its value is the one that the parser keeps exactly where
both take the same bytes, and what stands there otherwise is said as well. -/
structure ShowsOption (raw : Buffer optionsFieldSize) (i : Nat) (line : InspectedOption) :
    Prop where
  tag : line.tag = raw.get i
  lenght : line.lenght = raw.get (i + 1)
  nameStr : line.nameStr = tagToFullName (raw.get i)
  lenghtStr : line.lenghtStr = decimal (raw.get (i + 1)).toNat
  value : (line.valueStr, line.format) = (optionAt raw i).texts ↔ SameValue raw i
  merit : raw.get i = 14 → line.valueStr = binaryText (valueBytes raw i) ∧
    line.format = "Binary".toList
  address : dhcpOptionTagToType (raw.get i) = .ip →
    line.valueStr = uint32ToIpv4Address (uint32FromUint8Array (raw.readFrom (i + 2) 4)) ∧
      line.format = "IP Address".toList
  flag : dhcpOptionTagToType (raw.get i) = .bool →
    line.valueStr = booleanText (raw.get (i + 2)) ∧ line.format = "Boolean".toList

/-- From an index on options lie one behind the other at the indexes of the list, each inside the
field, up to an END mark at the last index. -/
inductive Listed (raw : Buffer optionsFieldSize) : Nat → List Nat → Nat → Prop
  | stop {i : Nat} : raw.get i = Tag.endMark → Listed raw i [] i
  | option {i j : Nat} {positions : List Nat} : i < packetOptionsSize → raw.get i ≠ Tag.pad →
      raw.get i ≠ Tag.endMark → overrunAt raw i = false →
      Listed raw (i + 2 + (raw.get (i + 1)).toNat) positions j → Listed raw i (i :: positions) j

section Value

variable {raw : Buffer optionsFieldSize} {i n : Nat}

theorem readOptions_ok (h : i + n ≤ optionsFieldSize) :
    readOptions raw i n = .ok (raw.readFrom i n) := by
  rw [readOptions, if_pos h]

/-- The two tables of types differ in option 14 only. -/
theorem guiTagToType_eq {tag : UInt8} (h : tag ≠ 14) :
    guiTagToType tag.toNat = dhcpOptionTagToType tag := by
  have hall : ∀ n < 256, n ≠ 14 →
      guiTagToType (UInt8.ofNat n).toNat = dhcpOptionTagToType (UInt8.ofNat n) := by decide +kernel
  have hne : tag.toNat ≠ 14 := fun h14 => h (UInt8.toNat_inj.mp h14)
  have heq := hall tag.toNat tag.toNat_lt hne
  rwa [UInt8.ofNat_toNat] at heq

/-- The bytes that the parser puts into its buffer for a value. -/
theorem valueBuf_get {k : Nat} (hk : k < (raw.get (i + 1)).toNat)
    (hmax : (raw.get (i + 1)).toNat ≤ optionMaxLenght) :
    (Buffer.tabulate optionMaxLenght fun k =>
      if k < (raw.get (i + 1)).toNat then raw.get (i + 2 + k) else 0).get k =
        raw.get (i + 2 + k) := by
  rw [Buffer.get_tabulate, if_pos (by omega), if_pos hk]

/-- The number that both parsers shift together. -/
theorem number_optionAt (ht : dhcpOptionTagToType (raw.get i) = .numeric ∨
      dhcpOptionTagToType (raw.get i) = .ip)
    (hmax : (raw.get (i + 1)).toNat ≤ optionMaxLenght) :
    (optionAt raw i).number = uint32FromUint8Array (valueBytes raw i) := by
  have hparse : (optionAt raw i).number = parseNumber (raw.get (i + 1))
      (Buffer.tabulate optionMaxLenght fun k =>
        if k < (raw.get (i + 1)).toNat then raw.get (i + 2 + k) else 0) := by
    unfold optionAt parseOptionValue
    rcases ht with ht | ht <;> simp only [ht] <;> exact number_of_value
  have hbytes : ∀ k ∈ List.range (raw.get (i + 1)).toNat,
      (Buffer.tabulate optionMaxLenght fun k =>
        if k < (raw.get (i + 1)).toNat then raw.get (i + 2 + k) else 0).get k =
          raw.get (i + 2 + k) :=
    fun k hk => valueBuf_get (List.mem_range.mp hk) hmax
  rw [hparse, uint32FromUint8Array, valueBytes, Buffer.readFrom_eq_map,
    ← List.map_congr_left hbytes, List.foldl_map]
  rfl

/-- The value bytes that the parser keeps. -/
theorem bytes_optionAt (ht : dhcpOptionTagToType (raw.get i) = .string ∨
      dhcpOptionTagToType (raw.get i) = .bin)
    (hmax : (raw.get (i + 1)).toNat ≤ optionMaxLenght) :
    (optionAt raw i).bytes = valueBytes raw i := by
  have hlen : (optionAt raw i).bytes.length = (raw.get (i + 1)).toNat := by
    rw [DhcpOption.bytes, List.length_take, Buffer.length_data]
    exact Nat.min_eq_left hmax
  rw [valueBytes, Buffer.readFrom_eq_map]
  apply List.ext_getElem
  · rw [hlen, List.length_map, List.length_range]
  · intro k hk _
    rw [hlen] at hk
    have hvalue : (optionAt raw i).value.get k = raw.get (i + 2 + k) := by
      rw [← valueBuf_get hk hmax]
      exact parseOptionValue_bytes ht hk (by omega)
    have hdata : k < (optionAt raw i).value.data.length := by
      rw [Buffer.length_data]
      omega
    rw [List.getElem_map, List.getElem_range, ← hvalue, ← Buffer.getD_data,
      List.getD_eq_getElem?_getD, List.getElem?_eq_getElem hdata]
    exact List.getElem_take

/-- The boolean that the parser keeps; a value of no bytes is false. -/
theorem flag_optionAt (ht : dhcpOptionTagToType (raw.get i) = .bool) :
    (optionAt raw i).value.get 0 =
      if raw.get (i + 1) = 0 ∨ raw.get (i + 2) = 0 then 0 else 1 := by
  have hbuf : (Buffer.tabulate optionMaxLenght fun k =>
      if k < (raw.get (i + 1)).toNat then raw.get (i + 2 + k) else 0).get 0 =
        if raw.get (i + 1) = 0 then 0 else raw.get (i + 2) := by
    rw [Buffer.get_tabulate, if_pos (by decide)]
    by_cases hzero : raw.get (i + 1) = 0
    · simp [hzero]
    · have hpos : 0 < (raw.get (i + 1)).toNat :=
        Nat.pos_of_ne_zero fun h => hzero (UInt8.toNat_inj.mp h)
      simp [hzero, hpos]
  unfold optionAt
  simp only [ht, parseOptionValue_bool, hbuf]
  by_cases hzero : raw.get (i + 1) = 0 <;> simp [hzero]

section Formats

variable {tag lenght : UInt8} {bytes : List UInt8}

theorem inspectedValue_string (ht : guiTagToType tag.toNat = .string)
    (h : readOptions raw i lenght.toNat = .ok bytes) : inspectedValue raw tag lenght i =
      .ok (bytes.map fun b => Char.ofNat b.toNat, "String".toList) := by
  simp only [inspectedValue, ht, h]
  rfl

theorem inspectedValue_ip (ht : guiTagToType tag.toNat = .ip)
    (h : readOptions raw i 4 = .ok bytes) : inspectedValue raw tag lenght i =
      .ok (uint32ToIpv4Address (uint32FromUint8Array bytes), "IP Address".toList) := by
  simp only [inspectedValue, ht, h]
  rfl

theorem inspectedValue_bin (ht : guiTagToType tag.toNat = .bin)
    (h : readOptions raw i lenght.toNat = .ok bytes) : inspectedValue raw tag lenght i =
      .ok (bytes.flatMap fun b => decimal b.toNat ++ " ".toList, "Binary".toList) := by
  simp only [inspectedValue, ht, h]
  rfl

theorem inspectedValue_bool (ht : guiTagToType tag.toNat = .bool)
    (h : readOptions raw i 1 = .ok bytes) : inspectedValue raw tag lenght i =
      .ok (if bytes.all (· = 0) then "FALSE".toList else "TRUE".toList, "Boolean".toList) := by
  simp only [inspectedValue, ht, h]
  rfl

theorem inspectedValue_numeric (ht : guiTagToType tag.toNat = .numeric)
    (h : readOptions raw i lenght.toNat = .ok bytes) : inspectedValue raw tag lenght i =
      .ok (decimal (uint32FromUint8Array bytes).toNat, "Number".toList) := by
  simp only [inspectedValue, ht, h]
  rfl

theorem inspectedOption_eq {value format : CString} (hi : i + 2 ≤ optionsFieldSize)
    (h : inspectedValue raw (raw.get i) (raw.get (i + 1)) (i + 2) = .ok (value, format)) :
    inspectedOption raw i = .ok ⟨raw.get i, raw.get (i + 1), tagToFullName (raw.get i),
      decimal (raw.get (i + 1)).toNat, value, format⟩ := by
  have hhead : readOptions raw i 2 = .ok [raw.get i, raw.get (i + 1)] := readOptions_ok hi
  simp only [inspectedOption, hhead, bind, Except.bind, List.getD_cons_zero, List.getD_cons_succ, h]
  rfl

end Formats

section Texts

variable {o : DhcpOption}

theorem texts_numeric (h : o.type = .numeric) :
    o.texts = (decimal o.number.toNat, "Number".toList) := by simp only [DhcpOption.texts, h]

theorem texts_ip (h : o.type = .ip) :
    o.texts = (uint32ToIpv4Address o.ip, "IP Address".toList) := by simp only [DhcpOption.texts, h]

theorem texts_bool (h : o.type = .bool) :
    o.texts = (booleanText (o.value.get 0), "Boolean".toList) := by simp only [DhcpOption.texts, h]

theorem texts_string (h : o.type = .string) :
    o.texts = (o.bytes.map fun b => Char.ofNat b.toNat, "String".toList) := by
  simp only [DhcpOption.texts, h]

theorem texts_bin (h : o.type = .bin) : o.texts = (binaryText o.bytes, "Binary".toList) := by
  simp only [DhcpOption.texts, h]

theorem uint32ToIpv4Address_inj {a b : UInt32} :
    uint32ToIpv4Address a = uint32ToIpv4Address b ↔ a = b := by
  refine ⟨fun h => ?_, congrArg _⟩
  rw [← ipv4AddressToUint32_uint32ToIpv4Address a, h, ipv4AddressToUint32_uint32ToIpv4Address]

theorem booleanText_inj {b c : UInt8} : booleanText b = booleanText c ↔ (b = 0 ↔ c = 0) := by
  unfold booleanText
  by_cases hb : b = 0 <;> by_cases hc : c = 0 <;> simp [hb, hc]

end Texts

/-- What is shown for an option that lies inside the field, by the type that the parser gives it. -/
theorem inspectedValue_cases (hi : i < packetOptionsSize) (hin : overrunAt raw i = false) :
    inspectedValue raw (raw.get i) (raw.get (i + 1)) (i + 2) = .ok
      (match dhcpOptionTagToType (raw.get i) with
      | .numeric => if raw.get i = 14 then (binaryText (valueBytes raw i), "Binary".toList)
          else (optionAt raw i).texts
      | .ip => (uint32ToIpv4Address (uint32FromUint8Array (raw.readFrom (i + 2) 4)),
          "IP Address".toList)
      | .bool => (booleanText (raw.get (i + 2)), "Boolean".toList)
      | .string | .bin => (optionAt raw i).texts) := by
  simp only [overrunAt, Bool.or_eq_false_iff, decide_eq_false_iff_not, not_lt] at hin
  obtain ⟨hmax, hfield⟩ := hin
  have hsizes : packetOptionsSize + 24 = optionsFieldSize := rfl
  have hbytes : readOptions raw (i + 2) (raw.get (i + 1)).toNat = .ok (valueBytes raw i) :=
    readOptions_ok hfield
  have hfour := @readOptions_ok raw (i + 2) 4 (by omega)
  have hone : readOptions raw (i + 2) 1 = .ok [raw.get (i + 2)] := readOptions_ok (by omega)
  -- the formats of the two tables agree, but for option 14
  by_cases h14 : raw.get i = 14
  · have hserver : dhcpOptionTagToType (raw.get i) = .numeric := by rw [h14]; decide
    have hgui : guiTagToType (raw.get i).toNat = .bin := by rw [h14]; decide
    simp only [hserver, if_pos h14]
    exact inspectedValue_bin hgui hbytes
  have hgui := guiTagToType_eq h14
  cases ht : dhcpOptionTagToType (raw.get i) with
  | numeric =>
    rw [if_neg h14, texts_numeric ht, number_optionAt (.inl ht) hmax]
    exact inspectedValue_numeric (hgui.trans ht) hbytes
  | ip => exact inspectedValue_ip (hgui.trans ht) hfour
  | bool =>
    rw [inspectedValue_bool (hgui.trans ht) hone, booleanText]
    by_cases hzero : raw.get (i + 2) = 0 <;> simp [hzero]
  | string =>
    rw [texts_string ht, bytes_optionAt (.inl ht) hmax]
    exact inspectedValue_string (hgui.trans ht) hbytes
  | bin =>
    rw [texts_bin ht, bytes_optionAt (.inr ht) hmax]
    exact inspectedValue_bin (hgui.trans ht) hbytes

/-- The line for an option that lies inside the field. -/
theorem inspectedOption_shows (hi : i < packetOptionsSize) (hin : overrunAt raw i = false) :
    ∃ line, inspectedOption raw i = .ok line ∧ ShowsOption raw i line := by
  have hvalue := inspectedValue_cases hi hin
  have hmax : (raw.get (i + 1)).toNat ≤ optionMaxLenght := by
    simp only [overrunAt, Bool.or_eq_false_iff, decide_eq_false_iff_not, not_lt] at hin
    exact hin.1
  have hhead : i + 2 ≤ optionsFieldSize := by
    have hsizes : packetOptionsSize + 24 = optionsFieldSize := rfl
    omega
  -- option 14 is a number for the parser
  have hmerit (hne : dhcpOptionTagToType (raw.get i) ≠ .numeric) : raw.get i ≠ 14 := by
    intro h
    rw [h] at hne
    exact hne rfl
  cases ht : dhcpOptionTagToType (raw.get i) with
  | numeric =>
    simp only [ht] at hvalue
    have htexts := texts_numeric (o := optionAt raw i) ht
    by_cases h14 : raw.get i = 14
    · rw [if_pos h14] at hvalue
      refine ⟨_, inspectedOption_eq hhead hvalue, ⟨rfl, rfl, rfl, rfl, ?_, fun _ => ⟨rfl, rfl⟩, ?_, ?_⟩⟩
      · rw [htexts, SameValue, ht]
        simp [h14]
      · simp [ht]
      · simp [ht]
    · rw [if_neg h14, htexts] at hvalue
      refine ⟨_, inspectedOption_eq hhead hvalue, ⟨rfl, rfl, rfl, rfl, ?_, ?_, ?_, ?_⟩⟩
      · rw [htexts, SameValue, ht]
        simp [h14]
      · exact fun h => absurd h h14
      · simp [ht]
      · simp [ht]
  | ip =>
    simp only [ht] at hvalue
    have h14 : raw.get i ≠ 14 := hmerit (by simp [ht])
    refine ⟨_, inspectedOption_eq hhead hvalue,
      ⟨rfl, rfl, rfl, rfl, ?_, fun h => absurd h h14, fun _ => ⟨rfl, rfl⟩, ?_⟩⟩
    · rw [texts_ip (o := optionAt raw i) ht, SameValue, ht, DhcpOption.ip,
        number_optionAt (.inr ht) hmax]
      simp [uint32ToIpv4Address_inj]
    · simp [ht]
  | bool =>
    simp only [ht] at hvalue
    have h14 : raw.get i ≠ 14 := hmerit (by simp [ht])
    refine ⟨_, inspectedOption_eq hhead hvalue,
      ⟨rfl, rfl, rfl, rfl, ?_, fun h => absurd h h14, ?_, fun _ => ⟨rfl, rfl⟩⟩⟩
    · rw [texts_bool (o := optionAt raw i) ht, SameValue, ht, flag_optionAt ht]
      simp only [Prod.mk.injEq, and_true, booleanText_inj]
      by_cases hlen : raw.get (i + 1) = 0 <;> by_cases hzero : raw.get (i + 2) = 0 <;>
        simp [hlen, hzero]
    · simp [ht]
  | string | bin =>
    simp only [ht] at hvalue
    have h14 : raw.get i ≠ 14 := hmerit (by simp [ht])
    refine ⟨_, inspectedOption_eq hhead hvalue,
      ⟨rfl, rfl, rfl, rfl, ?_, fun h => absurd h h14, ?_, ?_⟩⟩
    · rw [SameValue, ht]
      exact ⟨fun _ => trivial, fun _ => rfl⟩
    · simp [ht]
    · simp [ht]

end Value

section Page

variable {raw : Buffer optionsFieldSize} {i j : Nat} {positions : List Nat}

/-- The loop of the page goes through the options that are listed, one line for each. -/
theorem Listed.visits (h : Listed raw i positions j) {s₀ : Nat × List InspectedOption}
    {found : List InspectedOption} (hv : Loop.Visits (inspectBody raw) s₀ (i, found)) :
    ∃ lines, List.Forall₂ (ShowsOption raw) positions lines ∧
      Loop.Visits (inspectBody raw) s₀ (j, found ++ lines) ∧ raw.get j = Tag.endMark := by
  induction h generalizing found with
  | stop hend => exact ⟨[], .nil, by rwa [List.append_nil], hend⟩
  | @option i j positions hi hpad hend hin _ ih =>
    obtain ⟨line, hline, hshows⟩ := inspectedOption_shows hi hin
    have hfield : i < optionsFieldSize := hi.trans (by decide)
    have htag : line.tag = raw.get i := hshows.tag
    have hlenght : line.lenght = raw.get (i + 1) := hshows.lenght
    have hpass : inspectBody raw (i, found) =
        .next (i + 2 + (raw.get (i + 1)).toNat, found ++ [line]) := by
      simp only [inspectBody, hfield, if_true, hline, htag, hpad, hend, if_false, hlenght]
    obtain ⟨lines, hall, hvisits, hlast⟩ := ih (hv.pass hpass)
    refine ⟨line :: lines, .cons hshows hall, ?_, hlast⟩
    rwa [List.append_assoc, List.singleton_append] at hvisits

theorem lt_of_endMark (hend : raw.get j = Tag.endMark) : j < optionsFieldSize := by
  by_contra hout
  rw [Buffer.get_eq_zero _ _ (not_lt.mp hout)] at hend
  cases hend

/-- At the END mark the loop is left, unless what stands behind it is taken for a value that leaves
the field. -/
theorem inspectBody_end (hend : raw.get j = Tag.endMark) (lines : List InspectedOption) :
    inspectBody raw (j, lines) = .done (if j + 2 + (raw.get (j + 1)).toNat ≤ optionsFieldSize
      then .ok lines else .error .outOfBounds) := by
  have hlt := lt_of_endMark hend
  have hbin : guiTagToType (raw.get j).toNat = .bin := by
    rw [hend]
    decide
  by_cases hlast : j + 2 ≤ optionsFieldSize
  · have hhead : readOptions raw j 2 = .ok [raw.get j, raw.get (j + 1)] := readOptions_ok hlast
    by_cases hin : j + 2 + (raw.get (j + 1)).toNat ≤ optionsFieldSize
    · have hvalue := @inspectedValue_bin raw (j + 2) (raw.get j) (raw.get (j + 1)) _ hbin
        (readOptions_ok hin)
      have hoption := inspectedOption_eq hlast hvalue
      have hmark : Tag.endMark ≠ Tag.pad := by decide
      simp only [inspectBody, hlt, if_true, hoption, hend, hmark, if_false, hin]
    · have hvalue : inspectedValue raw (raw.get j) (raw.get (j + 1)) (j + 2) =
          .error .outOfBounds := by
        simp only [inspectedValue, hbin, readOptions, hin, if_false]
        rfl
      simp only [inspectBody, hlt, if_true, inspectedOption, hhead, bind, Except.bind,
        List.getD_cons_zero, List.getD_cons_succ, hvalue, hin, if_false]
  · -- the mark is the last byte of the field, so that its length is not
    have hhead : readOptions raw j 2 = .error .outOfBounds := by
      rw [readOptions, if_neg hlast]
    have hout : ¬j + 2 + (raw.get (j + 1)).toNat ≤ optionsFieldSize := by omega
    simp only [inspectBody, hlt, if_true, inspectedOption, hhead, bind, Except.bind, hout, if_false]

/-- A pass of the loop that goes on does so with a higher index, inside the field. -/
theorem inspectBody_next {s s' : Nat × List InspectedOption} (h : inspectBody raw s = .next s') :
    s.1 < optionsFieldSize ∧ s.1 < s'.1 := by
  unfold inspectBody at h
  split at h
  · rename_i hi
    refine ⟨hi, ?_⟩
    split at h
    · cases h
    split at h
    · cases h
      show s.1 < s.1 + 2 + _
      omega
    split at h
    · cases h
    · cases h
      show s.1 < s.1 + 2 + _
      omega
  · cases h

/-- The page of options that are listed up to an END mark. -/
theorem Listed.page (h : Listed raw 0 positions j) :
    ∃ lines, List.Forall₂ (ShowsOption raw) positions lines ∧ loadMessageOptions raw =
      if j + 2 + (raw.get (j + 1)).toNat ≤ optionsFieldSize then .ok lines
      else .error .outOfBounds := by
  obtain ⟨lines, hall, hvisits, hend⟩ := @Listed.visits raw 0 j positions h (0, []) [] .entry
  rw [List.nil_append] at hvisits
  refine ⟨lines, hall, ?_⟩
  obtain ⟨fuel, hrun⟩ := hvisits.run (Loop.run_done (inspectBody_end hend lines) 0)
  have hsome : (Loop.run (inspectBody raw) (optionsFieldSize + 1) (0, [])).isSome := by
    apply Loop.run_isSome_of_measure (fun s => optionsFieldSize - s.1)
    · intro s s' _ hb
      obtain ⟨hi, hlt⟩ := inspectBody_next hb
      omega
    · show optionsFieldSize - 0 < optionsFieldSize + 1
      omega
  obtain ⟨result, hresult⟩ := Option.isSome_iff_exists.mp hsome
  rw [loadMessageOptions, hresult]
  exact Loop.run_unique hresult hrun

/-- A scan that stops at an END mark has gone through options that are listed up to there. -/
theorem listed_of_scan {fuel : Nat} {dest dest' : List DhcpOption} (hend : raw.get j = Tag.endMark)
    (h : Loop.run (parseBody raw) fuel ⟨i, dest, false⟩ = some ⟨j, dest', false⟩) :
    ∃ positions, Listed raw i positions j ∧
      dest' = (positions.map (optionAt raw)).foldl dhcpOptionAdd dest := by
  induction fuel generalizing i dest with
  | zero => cases h
  | succ fuel ih =>
    by_cases hi : i < packetOptionsSize
    · by_cases hpad : raw.get i = Tag.pad
      · rw [Loop.run_next (@parseBody_pad raw ⟨i, dest, false⟩ hi hpad)] at h
        exact ih h
      · by_cases hmark : raw.get i = Tag.endMark
        · have hdone : parseBody raw ⟨i, dest, false⟩ = .done ⟨i, dest, false⟩ := by
            have hne : Tag.endMark ≠ Tag.pad := by decide
            simp [parseBody, hi, hmark, hne]
          rw [Loop.run_done hdone] at h
          cases h
          exact ⟨[], .stop hend, rfl⟩
        · rw [Loop.run_next (@parseBody_option raw ⟨i, dest, false⟩ hi hpad hmark)] at h
          -- an overrun would stay until the end
          cases hover : overrunAt raw i with
          | true =>
            have hstays := overrun_stays (scan_result h) (by simp [hover])
            cases hstays
          | false =>
            rw [Bool.false_or, hover] at h
            obtain ⟨positions, hlisted, hdest⟩ := ih h
            exact ⟨i :: positions, .option hi hpad hmark hover hlisted, hdest⟩
    · have hdone : parseBody raw ⟨i, dest, false⟩ = .done ⟨i, dest, false⟩ := by
        simp [parseBody, hi]
      rw [Loop.run_done hdone] at h
      cases h
      exact ⟨[], .stop hend, rfl⟩

/-- The page and the parser of the server go through the same options, on every options field in
which the scan of the server, without leaving the field, comes to an END mark: there is one line
for each option that the parser meets, in order, of which the parser keeps the first of each tag.
The page fails exactly where what stands behind the END mark, taken for a length, leads out of the
field. -/
theorem inspect_options_agree {options : List DhcpOption} (hparse : dhcpOptionParse raw = .ok options)
    (hpos : OptionPosition raw j) (hend : raw.get j = Tag.endMark) :
    ∃ positions lines, Listed raw 0 positions j ∧
      options = (positions.map (optionAt raw)).foldl dhcpOptionAdd [] ∧
      List.Forall₂ (ShowsOption raw) positions lines ∧
      loadMessageOptions raw = if j + 2 + (raw.get (j + 1)).toNat ≤ optionsFieldSize then .ok lines
        else .error .outOfBounds := by
  obtain ⟨fuel, i, hrun⟩ := dhcpOptionParse_eq_ok.mp hparse
  obtain ⟨s, hvisit, rfl⟩ := position_visited hpos
  -- the scan is left where the END mark is met
  have hdone : parseBody raw s = .done s := by
    have hmark : Tag.endMark ≠ Tag.pad := by decide
    simp [parseBody, hend, hmark]
  obtain ⟨fuel', hstop⟩ := hvisit.run (Loop.run_done hdone 0)
  obtain rfl := Loop.run_unique hstop hrun
  obtain ⟨positions, hlisted, hdest⟩ := listed_of_scan hend hrun
  obtain ⟨lines, hall, hpage⟩ := hlisted.page
  exact ⟨positions, lines, hlisted, hdest, hall, hpage⟩

/-- A message type and vendor information, and behind the END mark what would be the length of
another option. -/
def markedOptions : Buffer optionsFieldSize :=
  (Buffer.zero optionsFieldSize).write 0
    ([53, 1, 1, 43, 80] ++ List.replicate 80 7 ++ [255, 255])

/-- The server reads two options, and the page fails. -/
theorem inspect_options_marked : ∃ options positions lines,
    dhcpOptionParse markedOptions = .ok options ∧ Listed markedOptions 0 positions 85 ∧
    options = (positions.map (optionAt markedOptions)).foldl dhcpOptionAdd [] ∧
    options.length = 2 ∧ List.Forall₂ (ShowsOption markedOptions) positions lines ∧
    loadMessageOptions markedOptions = .error .outOfBounds := by
  have hany : (dhcpOptionParse markedOptions).toOption.any (fun os => os.length == 2) = true := by
    decide +kernel
  obtain ⟨options, hparse, htwo⟩ := exists_ok_of_any hany
  have hafter {i j : Nat} (hi : OptionPosition markedOptions i) (hlt : i < packetOptionsSize)
      (hpad : markedOptions.get i ≠ Tag.pad) (hend : markedOptions.get i ≠ Tag.endMark)
      (hj : i + 2 + (markedOptions.get (i + 1)).toNat = j) : OptionPosition markedOptions j :=
    hj ▸ hi.after hlt hpad hend
  have h₃ : OptionPosition markedOptions 3 := hafter .first (by decide) (by decide +kernel)
    (by decide +kernel) (by decide +kernel)
  have hpos : OptionPosition markedOptions 85 := hafter h₃ (by decide) (by decide +kernel)
    (by decide +kernel) (by decide +kernel)
  obtain ⟨positions, lines, hlisted, hoptions, hlines, hpage⟩ :=
    inspect_options_agree hparse hpos (by decide +kernel)
  have hout : ¬85 + 2 + (markedOptions.get (85 + 1)).toNat ≤ optionsFieldSize := by decide +kernel
  exact ⟨options, positions, lines, hparse, hlisted, hoptions, by simpa using htwo, hlines,
    hpage.trans (if_neg hout)⟩

/-- Options that were serialised are listed. -/
theorem listed_of_holds {options : List DhcpOption} (hs : Sendable options)
    (h : HoldsAt raw i options) (hfit : i + wireSize options ≤ packetOptionsSize)
    (hend : raw.get (i + wireSize options) = Tag.endMark) :
    ∃ positions, Listed raw i positions (i + wireSize options) ∧
      positions.map (optionAt raw) = options.map DhcpOption.reparsed := by
  induction options generalizing i with
  | nil => exact ⟨[], .stop hend, rfl⟩
  | cons o os ih =>
    have hat := optionAt_of_holds h
    obtain ⟨htag, hlen, -, hrest⟩ := h
    obtain ⟨hpad, hmark⟩ := hs.tags o (by simp)
    have hmax := hs.lengths o (by simp)
    have hdist := hs.distinct
    rw [List.map_cons, List.nodup_cons] at hdist
    have hs' : Sendable os := ⟨fun x hx => hs.tags x (by simp [hx]),
      fun x hx => hs.lengths x (by simp [hx]), hdist.2⟩
    rw [wireSize_cons] at hfit hend ⊢
    have hindex : i + (2 + o.lenght.toNat + wireSize os) = i + 2 + o.lenght.toNat + wireSize os := by
      omega
    rw [hindex] at hend ⊢
    have hover : overrunAt raw i = false := by
      have hsize : packetOptionsSize < optionsFieldSize := by decide
      simp only [overrunAt, hlen, Bool.or_eq_false_iff, decide_eq_false_iff_not]
      omega
    obtain ⟨positions, hlisted, hmap⟩ := ih hs' hrest (by omega) hend
    refine ⟨i :: positions, .option (by omega) (htag ▸ hpad) (htag ▸ hmark) hover ?_, ?_⟩
    · rw [hlen]
      exact hlisted
    · rw [List.map_cons, List.map_cons, hat, hmap]

end Page

section TypeName

variable {raw : Buffer optionsFieldSize} {i j : Nat} {positions : List Nat}

/-- The name of the type behind the options at the indexes, from the name found before. -/
def typeNameAfter (raw : Buffer optionsFieldSize) (name : CString) (positions : List Nat) : CString :=
  positions.foldl (fun name i =>
    if raw.get i = Tag.dhcpMessageType then msgTypeName (raw.get (i + 2)) else name) name

theorem Listed.lt (h : Listed raw i positions j) : i < optionsFieldSize := by
  cases h with
  | stop hend => exact lt_of_endMark hend
  | option hi => exact hi.trans (by decide)

/-- The loop that looks for the message type goes through the options that are listed. -/
theorem Listed.visits_msgType (h : Listed raw i positions j) {s₀ : Nat × CString} {name : CString}
    (hv : Loop.Visits (msgTypeBody raw) s₀ (i, name)) :
    Loop.Visits (msgTypeBody raw) s₀ (j, typeNameAfter raw name positions) ∧
      raw.get j = Tag.endMark := by
  induction h generalizing name with
  | stop hend => exact ⟨hv, hend⟩
  | @option i j positions hi hpad hend _ hlisted ih =>
    have hsizes : packetOptionsSize + 24 = optionsFieldSize := rfl
    have hin := hlisted.lt
    have hpass : msgTypeBody raw (i, name) = .next (i + 2 + (raw.get (i + 1)).toNat,
        if raw.get i = Tag.dhcpMessageType then msgTypeName (raw.get (i + 2)) else name) := by
      have hpad : raw.get i ≠ 0 := hpad
      have hend : raw.get i ≠ 255 := hend
      have htag : (raw.get i = 53 ∧ i + 2 < optionsFieldSize) ↔ raw.get i = Tag.dhcpMessageType :=
        and_iff_left (by omega)
      have hindex : i + 1 + ((raw.get (i + 1)).toNat + 1) = i + 2 + (raw.get (i + 1)).toNat := by
        omega
      have hlast : ¬optionsFieldSize ≤ i + 1 := by omega
      simp only [msgTypeBody, show i < optionsFieldSize by omega, if_true, hpad, hend, if_false,
        htag, hlast, hindex, not_le.mpr hin]
    exact ih (hv.pass hpass)

/-- The type of options that are listed up to an END mark. -/
theorem Listed.getMsgType (h : Listed raw 0 positions j) (hname : typeNameAfter raw [] positions ≠ []) :
    getMsgType raw = .ok (typeNameAfter raw [] positions) := by
  have hentry : Loop.Visits (msgTypeBody raw) (0, []) (0, []) := .entry
  obtain ⟨hvisits, hend⟩ := h.visits_msgType hentry
  have hlt := lt_of_endMark hend
  have hdone : msgTypeBody raw (j, typeNameAfter raw [] positions) =
      .done (typeNameAfter raw [] positions) := by
    have hmark : (Tag.endMark : UInt8) ≠ 0 := by decide
    simp only [msgTypeBody, hlt, if_true, hend, hmark, if_false]
    rfl
  obtain ⟨fuel, hrun⟩ := hvisits.run (Loop.run_done hdone 0)
  obtain ⟨name, hok⟩ := getMsgType_ok raw
  unfold DHCPServer.getMsgType at hok ⊢
  cases hloop : Loop.run (msgTypeBody raw) (optionsFieldSize + 1) (0, []) with
  | none =>
    rw [hloop] at hok
    cases hok
  | some found =>
    obtain rfl := Loop.run_unique hloop hrun
    simp only [hname, if_false]

/-- Options without a message type leave the name as it is. -/
theorem typeNameAfter_of_no_type {name : CString}
    (h : ∀ k ∈ positions, raw.get k ≠ Tag.dhcpMessageType) :
    typeNameAfter raw name positions = name := by
  induction positions with
  | nil => rfl
  | cons k positions ih =>
    rw [List.forall_mem_cons] at h
    rw [typeNameAfter, List.foldl_cons, if_neg h.1]
    exact ih h.2

/-- Options with the message type in front, and no other one, have its name. -/
theorem Listed.msgType_of_first (h : Listed raw 0 positions j) {type : UInt8}
    {has lacks : List UInt8} {options : List DhcpOption} (hopts : OptionsFor type has lacks options)
    (hmap : positions.map (optionAt raw) = options.map DhcpOption.reparsed) :
    DHCPServer.getMsgType raw = .ok (msgTypeName type) := by
  obtain ⟨o, os, rfl⟩ : ∃ o os, options = o :: os := by
    cases options with
    | nil => exact absurd hopts.first (by simp)
    | cons o os => exact ⟨o, os, rfl⟩
  have hfirst : o = dhcpOptionNewValues Tag.dhcpMessageType 1 [type] := Option.some.inj hopts.first
  have hlisted := h
  cases hlisted with
  | stop _ => cases hmap
  | @option _ _ rest hi _ _ hover hrest =>
    rw [List.map_cons, List.map_cons] at hmap
    obtain ⟨hat, hothers⟩ := List.cons.inj hmap
    have htag : raw.get 0 = Tag.dhcpMessageType :=
      (congrArg DhcpOption.tag hat).trans (congrArg DhcpOption.tag hfirst)
    have hlenght : raw.get 1 = 1 :=
      (congrArg DhcpOption.lenght hat).trans (congrArg DhcpOption.lenght hfirst)
    have hvalue : raw.get 2 = type := by
      have hnumber := @number_optionAt raw 0 (.inl (by rw [htag]; rfl))
        (by rw [hlenght]; decide)
      rw [hat, hfirst, number_reparsed_messageType, valueBytes, hlenght] at hnumber
      have hbyte : type.toUInt32 = (raw.get 2).toUInt32 := by simpa [uint32FromUint8Array,
        Buffer.readFrom] using hnumber
      exact (UInt8.toUInt32_inj.mp hbyte).symm
    have hno : ∀ k ∈ rest, raw.get k ≠ Tag.dhcpMessageType := by
      intro k hk htype
      have hmem : raw.get k ∈ os.map DhcpOption.tag := by
        rw [← map_reparsed_tags, ← hothers]
        exact List.mem_map.mpr ⟨optionAt raw k, List.mem_map_of_mem hk, rfl⟩
      have hdistinct := hopts.distinct
      rw [List.map_cons, List.nodup_cons, hfirst] at hdistinct
      exact hdistinct.1 (htype ▸ hmem)
    have hname : typeNameAfter raw [] (0 :: rest) = msgTypeName type := by
      rw [typeNameAfter, List.foldl_cons, if_pos htag, hvalue]
      exact typeNameAfter_of_no_type hno
    rw [h.getMsgType (by rw [hname]; exact msgTypeName_ne_nil _), hname]

end TypeName

section Reply

variable {env : Env} {s : Server} {m reply : Message} {type : UInt8} {has lacks : List UInt8}

/-- The options of every answer begin with its type. -/
theorem Answers.optionsFor (h : Answers env s m reply) (hal : s.allocator.OptionsCarriable)
    (hm : FromWire m) : ∃ type has lacks, OptionsFor type has lacks reply.dhcpOptions := by
  cases h with
  | offer _ hshape h =>
    exact ⟨_, _, _, (optionsFor_offer (optionsCarriable_of_shape hshape hal) hm h).1⟩
  | ack _ _ h =>
    have hopts : OptionsFor 5 [51, 54] [50, 55, 57, 61] _ :=
      optionsFor_getRequested hal (List.all_iff_forall_prop.mp (by decide))
        (List.all_iff_forall_prop.mp (by decide)) h
    exact ⟨_, _, _, hopts⟩
  | inform _ h =>
    have hopts : OptionsFor 5 [54] [50, 51, 55, 57, 61] _ :=
      optionsFor_getRequested hal (List.all_iff_forall_prop.mp (by decide))
        (List.all_iff_forall_prop.mp (by decide)) h
    exact ⟨_, _, _, hopts⟩
  | nak _ h =>
    have hopts : OptionsFor 6 [54] [] _ :=
      optionsFor_build (nak_carriable hal) (List.all_iff_forall_prop.mp (by decide))
        (List.all_iff_forall_prop.mp (by decide)) h
    exact ⟨_, _, _, hopts⟩

theorem Answers.packet (h : Answers env s m reply) : reply.packet = Buffer.zero packetSize := by
  cases h with
  | offer | ack | inform | nak => rfl

/-- Behind the END mark of a reply there are zeros. -/
theorem build_after {j : Nat} (hc : reply.cookie = magicCookie) (hs : Sendable reply.dhcpOptions)
    (hfit : wireSize reply.dhcpOptions ≤ packetOptionsSize)
    (hzero : reply.packet = Buffer.zero packetSize) (hj : wireSize reply.dhcpOptions < j) :
    (packetOptions (dhcpPacketBuild reply).2.packet).get j = 0 := by
  have hfield : packetOptions (dhcpPacketBuild reply).2.packet = (dhcpOptionsSerialize
      reply.dhcpOptions (packetOptions ((buildHeader reply).write 236 (be32Bytes reply.cookie)))).2 := by
    rw [dhcpPacketBuild_packet hc]
    exact slice_write _ _ (by decide)
  rw [hfield, dhcpOptionsSerialize, serializeFrom_after hs.lengths (by omega) (by omega)]
  by_cases hin : j < optionsFieldSize
  · rw [packetOptions, Buffer.get_slice _ _ _ hin]
    have hout : 240 ≤ optionsOffset + j := by simp [optionsOffset]
    simp (disch := simp <;> omega) only [buildHeader, Buffer.get_write_out, hzero,
      Buffer.get_zero]
  · exact Buffer.get_eq_zero _ _ (Nat.le_of_not_lt hin)

/-- A reply that was built is listed, and the page has a line for each option and the name of its
type. -/
theorem build_page (hc : reply.cookie = magicCookie)
    (hopts : OptionsFor type has lacks reply.dhcpOptions)
    (hbuilt : (dhcpPacketBuild reply).1 = true) (hzero : reply.packet = Buffer.zero packetSize)
    {raw : Buffer optionsFieldSize} (hraw : raw = packetOptions (dhcpPacketBuild reply).2.packet) :
    ∃ positions lines, positions.map (optionAt raw) = reply.dhcpOptions.map DhcpOption.reparsed ∧
      List.Forall₂ (ShowsOption raw) positions lines ∧ loadMessageOptions raw = .ok lines ∧
      getMsgType raw = .ok (msgTypeName type) := by
  have hs := hopts.sendable
  have hfit := wireSize_of_build hc hbuilt
  have hroom : wireSize reply.dhcpOptions + 2 ≤ optionsFieldSize :=
    (Nat.add_le_add_right hfit 2).trans (by decide)
  have hafter := @build_after reply (wireSize reply.dhcpOptions + 1) hc hs hfit hzero (by omega)
  obtain ⟨before, hfield⟩ := dhcpPacketBuild_field hc
  rw [← hraw] at hafter hfield
  have hserialized : raw = (serializeFrom reply.dhcpOptions 0 before).2 := hfield
  have hend := @serializeFrom_end reply.dhcpOptions 0 before (by omega)
  have hholds := @serializeFrom_holds reply.dhcpOptions 0 before hs.lengths (by omega)
  rw [← hserialized] at hend hholds
  obtain ⟨positions, hlisted, hmap⟩ := listed_of_holds hs hholds (by omega) hend
  rw [Nat.zero_add] at hlisted
  obtain ⟨lines, hlines, hpage⟩ := hlisted.page
  -- the END mark is followed by the length zero
  refine ⟨positions, lines, hmap, hlines, hpage.trans (if_pos ?_), hlisted.msgType_of_first hopts hmap⟩
  rw [hafter]
  exact hroom

end Reply

/-- What the page shows of the header of a message, and of its type and time. -/
structure ShowsHeader (d : Message) (time : Nat) (shown : MessageDetails) : Prop where
  opcode : shown.opcode = decimal d.opcode.toNat
  htype : shown.htype = decimal d.htype.toNat
  hlen : shown.hlen = decimal d.hlen.toNat
  hops : shown.hops = decimal d.hops.toNat
  xid : shown.xid = "0x".toList ++ hexPadded 8 d.xid.toNat
  secs : shown.secs = decimal d.secs.toNat
  flags : shown.flags = decimal d.flags.toNat
  ciaddr : shown.ciaddr = uint32ToIpv4Address d.ciaddr
  yiaddr : shown.yiaddr = uint32ToIpv4Address d.yiaddr
  siaddr : shown.siaddr = uint32ToIpv4Address d.siaddr
  giaddr : shown.giaddr = uint32ToIpv4Address d.giaddr
  chaddr : shown.chaddr = hexBytes d.mac.data
  cookie : shown.cookie = "0x".toList ++ hexPadded 8 d.cookie.toNat
  msgType : shown.msgType = msgTypeName d.type.toUInt8 ++ " ".toList
  timeWhenStored : ∃ date : DateTime, date.At time ∧ shown.timeWhenStored = putTime date

/-- The page and a client read the same header. -/
theorem EntryOf.showsHeader {time : Nat} {m d : Message} {entry : DatabaseMessage}
    (h : EntryOf (time, m) entry) (htime : time < 2 ^ 32) {options : List DhcpOption} {t : UInt32}
    (hd : d = ((parseHeader (dhcpMessageNew.setPacket m.packet)).setOptions options).setType t)
    (htype : getMsgType (packetOptions m.packet) = .ok (msgTypeName t.toUInt8)) :
    ShowsHeader d time (messageDetails entry.spaced) := by
  have hmac : entry.chaddr.slice 0 6 = d.mac := by
    apply Buffer.ext_get
    intro i hi
    have hin : (dhcpMessageNew.chaddr.write 0 (m.packet.slice 28 16).data).get (0 + i) =
        (m.packet.slice 28 16).data.getD i 0 :=
      Buffer.get_write_in _ (by rw [Buffer.length_data]; omega) (by unfold chaddrLen; omega)
    rw [Nat.zero_add] at hin
    rw [h.chaddr, hd, Message.mac, Buffer.get_slice _ _ _ hi, Buffer.get_slice _ _ _ hi,
      Nat.zero_add]
    exact (hin.trans (Buffer.getD_data _ _)).symm
  subst hd
  constructor
  case timeWhenStored =>
    refine ⟨_, gmtime_at htime, ?_⟩
    show putTime (gmtime entry.timeWhenStored.toNat) = _
    rw [h.timeWhenStored]
  case chaddr => exact congrArg (fun mac : Mac => hexBytes mac.data) hmac
  case opcode => exact congrArg (fun x : UInt8 => decimal x.toNat) h.opcode
  case htype => exact congrArg (fun x : UInt8 => decimal x.toNat) h.htype
  case hlen => exact congrArg (fun x : UInt8 => decimal x.toNat) h.hlen
  case hops => exact congrArg (fun x : UInt8 => decimal x.toNat) h.hops
  case xid => exact congrArg (fun x : UInt32 => "0x".toList ++ hexPadded 8 x.toNat) h.xid
  case secs => exact congrArg (fun x : UInt16 => decimal x.toNat) h.secs
  case flags => exact congrArg (fun x : UInt16 => decimal x.toNat) h.flags
  case ciaddr => exact congrArg uint32ToIpv4Address h.ciaddr
  case yiaddr => exact congrArg uint32ToIpv4Address h.yiaddr
  case siaddr => exact congrArg uint32ToIpv4Address h.siaddr
  case giaddr => exact congrArg uint32ToIpv4Address h.giaddr
  case cookie => exact congrArg (fun x : UInt32 => "0x".toList ++ hexPadded 8 x.toNat) h.cookie
  case msgType =>
    have hname : entry.msgType = msgTypeName t.toUInt8 :=
      Except.ok.inj (h.msgType.symm.trans htype)
    exact congrArg (fun name : CString => name ++ " ".toList) hname

/-- The reply of a pass is the last message of its client's file after that pass. -/
theorem exchange_last {s₀ s s₁ s₂ s' : Server} {files files' : DatabaseFiles} {events : List Event}
    {e : Event} {m : Message} {k : Sent} (hs₀ : s₀.transCache.Sound)
    (hrun : events.foldlM (serveLogging true) (s₀, fun _ => none) = .ok (s, files))
    (hx : exchange s e = some (m, s₂, s₁, k))
    (hpass : serveLogging true (s, files) e = .ok (s', files')) :
    ∃ before entry, databaseLoadEntry files' (databasePath k.message.xid k.message.mac) =
        .ok (before ++ [entry]) ∧ EntryOf (e.env.now.toNat, k.message) entry := by
  obtain ⟨hh, -⟩ := exchange_eq_some.mp hx
  have hserved := (serveLogging_run hs₀ hrun).1
  have hlast : ofClient k.message.xid k.message.mac (history s₀ (events ++ [e])) =
      ofClient k.message.xid k.message.mac (history s₀ events ++
        [(e.env.now.toNat, m)]) ++ [(e.env.now.toNat, k.message)] := by
    have hexchanged : exchanged s e = [m, k.message] := by
      rw [exchanged, hh, hx]
      rfl
    unfold ofClient
    rw [history_append hserved, hexchanged, List.map_cons, List.append_cons, List.filter_append]
    simp
  have hrun' : (events ++ [e]).foldlM (serveLogging true) (s₀, fun _ => none) = .ok (s', files') := by
    rw [List.foldlM_append]
    exact seq_ok.mpr ⟨_, hrun, seq_ok.mpr ⟨_, hpass, rfl⟩⟩
  obtain ⟨entries, hload, hentries⟩ := logged_load hs₀ hrun' (k.message.xid, k.message.mac)
  rw [hlast] at hentries
  obtain ⟨entry, rest, hentry, hnil, htail⟩ := List.forall₂_cons_right_iff.mp
    (List.forall₂_drop_append _ _ _ hentries.flip)
  obtain rfl := List.forall₂_nil_right_iff.mp hnil
  obtain ⟨before, rfl⟩ : ∃ before, entries = before ++ [entry] :=
    ⟨_, htail ▸ (List.take_append_drop _ entries).symm⟩
  exact ⟨before, entry, hload, hentry⟩

/-- Every reply that a server with a proper configuration sends is, when the database of its run is
read after that pass, the last message of its client, and the page shows it as the client decodes
it: the fields of the header and the type, one line for each option in the same order, and the time
of the pass. -/
theorem inspect_shows_replies {cfg : Config} (hcfg : cfg.OptionsConfigurable)
    {s₀ s s₁ s₂ s' : Server} {files files' : DatabaseFiles} {events : List Event} {e : Event}
    {m : Message} {k : Sent} (h₀ : StartedWith cfg s₀)
    (hrun : events.foldlM (serveLogging true) (s₀, fun _ => none) = .ok (s, files))
    (hx : exchange s e = some (m, s₂, s₁, k))
    (hpass : serveLogging true (s, files) e = .ok (s', files')) :
    ∃ before entry d positions lines,
      databaseLoadEntry files' (databasePath k.message.xid k.message.mac) = .ok (before ++ [entry]) ∧
      decode k.message.packet = .ok (true, d) ∧
      ShowsHeader d e.env.now.toNat (messageDetails entry.spaced) ∧
      loadMessageOptions entry.options = .ok lines ∧
      d.dhcpOptions = positions.map (optionAt entry.options) ∧
      List.Forall₂ (ShowsOption entry.options) positions lines := by
  have hs₀ : s₀.transCache.Sound := by
    obtain ⟨start, now, rfl⟩ := h₀
    exact startup_sound cfg start now
  have hserved := (serveLogging_run hs₀ hrun).1
  have hreach := Reachable.of_foldlM PassCondition.always_holds (.start h₀) hserved
  obtain ⟨hs, hal⟩ := reachable_carriable hcfg hreach
  obtain ⟨hh, -⟩ := exchange_eq_some.mp hx
  have hacc := handled_accepts hs hh
  obtain ⟨-, -, hcookie, reply, hans, hbuilt, hk⟩ := exchange_answers hs hx
  have hal₂ : s₂.allocator.OptionsCarriable := by
    rw [hacc.allocator]
    exact optionsCarriable_of_shape (updateTimers_shape e.env s) hal
  have hwire := handled_fromWire hh
  obtain ⟨type, has, lacks, hopts⟩ := hans.optionsFor hal₂ hwire
  have hreply : reply.cookie = magicCookie := hans.cookie.trans hcookie
  obtain ⟨before, entry, hload, hentry⟩ := exchange_last hs₀ hrun hx hpass
  -- what the client decodes
  obtain ⟨d, hd, -⟩ := hans.conforms hal₂ hwire hacc.cookie hbuilt
  have hparse := dhcpPacketBuild_options hreply hopts.sendable (wireSize_of_build hreply hbuilt)
  rw [← hk] at hd hparse
  obtain ⟨-, hfalse, -⟩ | ⟨-, options, hoptions, hcase⟩ := dhcpPacketParse_cases hd
  · cases hfalse
  obtain rfl := Except.ok.inj (hoptions.symm.trans hparse)
  obtain ⟨-, hfalse, -⟩ | ⟨o, ho, -, hmessage⟩ := hcase
  · cases hfalse
  have hnumber : o.number = type.toUInt32 := by
    rw [retrieve_reparsed, hopts.messageType] at ho
    obtain rfl := Option.some.inj ho
    exact number_reparsed_messageType type
  -- what the page shows
  obtain ⟨positions, lines, hmap, hlines, hpage, hname⟩ :=
    build_page hreply hopts hbuilt hans.packet (congrArg (fun m => packetOptions m.packet) hk)
  have htype : getMsgType (packetOptions k.message.packet) = .ok (msgTypeName o.number.toUInt8) := by
    rw [hname, hnumber, UInt8.toUInt8_toUInt32]
  have hheader := hentry.showsHeader e.env.now.toNat_lt hmessage htype
  refine ⟨before, entry, d, positions, lines, hload, hd, hheader, ?_⟩
  rw [hentry.options, hmessage]
  exact ⟨hpage, hmap.symm, hlines⟩

/-- The page shows the OFFER for the DISCOVER that asks for everything. -/
theorem inspect_shows_greedy_offer : ∃ (k : Sent) (files' : DatabaseFiles),
    ∃ before entry d positions lines,
      databaseLoadEntry files' (databasePath k.message.xid k.message.mac) =
        .ok (before ++ [entry]) ∧
      decode k.message.packet = .ok (true, d) ∧
      ShowsHeader d 1001 (messageDetails entry.spaced) ∧
      loadMessageOptions entry.options = .ok lines ∧
      d.dhcpOptions = positions.map (optionAt entry.options) ∧
      List.Forall₂ (ShowsOption entry.options) positions lines := by
  have hsome : (exchange (startup busyNetwork (fun _ => []) 1000) greedyDiscover).isSome = true := by
    decide +kernel
  obtain ⟨⟨m, s₂, s₁, k⟩, hx⟩ := Option.isSome_iff_exists.mp hsome
  have hok : (serveLogging true (startup busyNetwork (fun _ => []) 1000, fun _ => none)
      greedyDiscover).isOk = true := by decide +kernel
  obtain ⟨⟨s', files'⟩, hpass⟩ := isOk_eq_true.mp hok
  have hstart : StartedWith busyNetwork (startup busyNetwork (fun _ => []) 1000) := ⟨_, _, rfl⟩
  exact ⟨k, files', @inspect_shows_replies _ busyNetwork_configurable _ _ _ _ _ _ _ [] _ _ _ hstart
    rfl hx hpass⟩

end DHCPServer
