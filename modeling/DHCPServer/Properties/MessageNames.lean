import Mathlib.Logic.Relation
import Mathlib.Order.Bounds.Basic
import DHCPServer.Gui.Database
import DHCPServer.Properties.CachedTypes
import DHCPServer.Properties.ParserBounds

namespace DHCPServer

/-- `rfc2131_dhcp_message_type_to_str` -/
def rfc2131DhcpMessageTypeToStr (t : UInt32) : CString :=
  if t = MsgType.discover then "DHCP_DISCOVER".toList
  else if t = MsgType.offer then "DHCP_OFFER".toList
  else if t = MsgType.request then "DHCP_REQUEST".toList
  else if t = MsgType.decline then "DHCP_DECLINE".toList
  else if t = MsgType.ack then "DHCP_ACK".toList
  else if t = MsgType.nak then "DHCP_NAK".toList
  else if t = MsgType.release then "DHCP_RELEASE".toList
  else if t = MsgType.inform then "DHCP_INFORM".toList
  else "Unknown DHCP Message Type".toList

/-- The GUI's name of an options field is the server's name of a type without its prefix. -/
def NamesType (raw : Buffer optionsFieldSize) (t : UInt32) : Prop :=
  ∃ name, getMsgType raw = .ok name ∧ rfc2131DhcpMessageTypeToStr t = "DHCP_".toList ++ name

/-- A tag is looked for at `j` after one at `i`: behind a PAD byte, or behind the value of an
option. END and the end of the field have nothing behind them. -/
structure TagFollows (raw : Buffer optionsFieldSize) (i j : Nat) : Prop where
  inside : i < optionsFieldSize
  notEnd : raw.get i ≠ Tag.endMark
  next : j = if raw.get i = Tag.pad then i + 1 else i + 2 + (raw.get (i + 1)).toNat

/-- The indexes of the options 53 from a tag on, as far as a byte of their value can be inside the
field. -/
def typesFrom (raw : Buffer optionsFieldSize) (i : Nat) : Set Nat :=
  {k | Relation.ReflTransGen (TagFollows raw) i k ∧ raw.get k = Tag.dhcpMessageType ∧
    k + 2 < optionsFieldSize}

/-- The number whose bytes these are, the most significant one first. -/
def spelledNumber (bytes : List UInt8) : Nat :=
  Nat.ofDigits 256 (bytes.reverse.map UInt8.toNat)

/-- The value of the last option 53 begins with the byte whose number the whole value of the first
one spells in 32 bits. -/
def LastBeginsWithFirst (raw : Buffer optionsFieldSize) : Prop :=
  ∃ first last, IsLeast (typesFrom raw 0) first ∧ IsGreatest (typesFrom raw 0) last ∧
    (raw.get (last + 2)).toNat =
      spelledNumber (raw.readFrom (first + 2) (raw.get (first + 1)).toNat) % 2 ^ 32

section Types

variable {raw : Buffer optionsFieldSize} {i j k : Nat}

theorem le_of_mem_typesFrom (h : k ∈ typesFrom raw i) : i ≤ k := by
  obtain ⟨hreach, -, -⟩ := h
  induction hreach with
  | refl => exact le_rfl
  | tail _ hstep ih =>
    apply ih.trans
    rw [hstep.next]
    split <;> omega

theorem mem_typesFrom_step (h : TagFollows raw i j) :
    k ∈ typesFrom raw i ↔
      (k = i ∧ raw.get i = Tag.dhcpMessageType ∧ i + 2 < optionsFieldSize) ∨
        k ∈ typesFrom raw j := by
  constructor
  · rintro ⟨hreach, htype⟩
    rcases hreach.cases_head with rfl | ⟨j', hstep, hrest⟩
    · exact .inl ⟨rfl, htype⟩
    · rw [hstep.next, ← h.next] at hrest
      exact .inr ⟨hrest, htype⟩
  · rintro (⟨rfl, htype⟩ | ⟨hrest, htype⟩)
    · exact ⟨.refl, htype⟩
    · exact ⟨hrest.head h, htype⟩

theorem typesFrom_skip (h : TagFollows raw i j) (hne : raw.get i ≠ Tag.dhcpMessageType) :
    typesFrom raw i = typesFrom raw j := by
  ext k
  rw [mem_typesFrom_step h]
  simp [hne]

theorem typesFrom_end (h : optionsFieldSize ≤ i + 2 ∨ raw.get i = Tag.endMark) :
    typesFrom raw i = ∅ := by
  rw [Set.eq_empty_iff_forall_notMem]
  intro k hk
  have hle := le_of_mem_typesFrom hk
  obtain ⟨hreach, htype, hin⟩ := hk
  rcases h with hout | hend
  · omega
  · rcases hreach.cases_head with rfl | ⟨j, hstep, -⟩
    · rw [hend] at htype
      cases htype
    · exact hstep.notEnd hend

theorem isLeast_typesFrom (htype : raw.get i = Tag.dhcpMessageType)
    (hin : i + 2 < optionsFieldSize) : IsLeast (typesFrom raw i) i :=
  ⟨⟨.refl, htype, hin⟩, fun _ hk => le_of_mem_typesFrom hk⟩

/-- The option that stepping through the field finds first. -/
theorem findOption_type {fuel : Nat} {o : DhcpOption}
    (h : findOption raw Tag.dhcpMessageType fuel i = some o) :
    ∃ k, IsLeast (typesFrom raw i) k ∧ o = optionAt raw k := by
  induction fuel generalizing i with
  | zero => cases h
  | succ fuel ih =>
    simp only [findOption] at h
    split at h
    · rename_i hi
      have hin : i + 2 < optionsFieldSize := by
        simp only [packetOptionsSize, optionsFieldSize] at hi ⊢
        omega
      split at h
      · rename_i hp
        have hne : raw.get i ≠ Tag.endMark ∧ raw.get i ≠ Tag.dhcpMessageType := by
          rw [hp]
          decide
        rw [typesFrom_skip ⟨by omega, hne.1, (if_pos hp).symm⟩ hne.2]
        exact ih h
      · rename_i hp
        split at h
        · cases h
        · rename_i hend
          split at h
          · rename_i htype
            exact ⟨i, isLeast_typesFrom htype hin, (Option.some.inj h).symm⟩
          · rename_i htype
            rw [typesFrom_skip ⟨by omega, hend, (if_neg hp).symm⟩ htype]
            exact ih h
    · cases h

/-- From a tag at `i` and with the name `name` on, the GUI's scan ends with the name `r`: the one of
the last option 53, or the old one where there is none. -/
def EndsWithName (raw : Buffer optionsFieldSize) (i : Nat) (name r : CString) : Prop :=
  (∃ k, IsGreatest (typesFrom raw i) k ∧ r = msgTypeName (raw.get (k + 2))) ∨
    (typesFrom raw i = ∅ ∧ r = name)

theorem endsWithName_end (h : optionsFieldSize ≤ i + 2 ∨ raw.get i = Tag.endMark)
    (name : CString) : EndsWithName raw i name name :=
  .inr ⟨typesFrom_end h, rfl⟩

theorem EndsWithName.skip {name r : CString} (h : EndsWithName raw j name r)
    (hstep : TagFollows raw i j) (hne : raw.get i ≠ Tag.dhcpMessageType) :
    EndsWithName raw i name r := by
  unfold EndsWithName
  rw [typesFrom_skip hstep hne]
  exact h

/-- An option 53 gives its name, which stays unless there is another one behind it. -/
theorem EndsWithName.option {name r : CString}
    (h : EndsWithName raw j (msgTypeName (raw.get (i + 2))) r) (hstep : TagFollows raw i j)
    (htype : raw.get i = Tag.dhcpMessageType) (hin : i + 2 < optionsFieldSize) :
    EndsWithName raw i name r := by
  have hleast : IsLeast (typesFrom raw i) i := isLeast_typesFrom htype hin
  rcases h with ⟨k, ⟨hk, hmax⟩, rfl⟩ | ⟨hnone, rfl⟩
  · have hk' : k ∈ typesFrom raw i := (mem_typesFrom_step hstep).mpr (.inr hk)
    refine .inl ⟨k, ⟨hk', ?_⟩, rfl⟩
    intro n hn
    rcases (mem_typesFrom_step hstep).mp hn with ⟨rfl, -⟩ | hn
    · exact hleast.2 hk'
    · exact hmax hn
  · refine .inl ⟨i, ⟨hleast.1, ?_⟩, rfl⟩
    intro n hn
    rcases (mem_typesFrom_step hstep).mp hn with ⟨rfl, -⟩ | hn
    · exact le_rfl
    · rw [hnone] at hn
      cases hn

/-- What a pass over an option leaves to be shown of the rest. -/
theorem endsWithName_option {name r : CString} (hi : i < optionsFieldSize)
    (hpad : raw.get i ≠ Tag.pad) (hend : raw.get i ≠ Tag.endMark)
    (h : EndsWithName raw (i + 2 + (raw.get (i + 1)).toNat)
      (if raw.get i = Tag.dhcpMessageType ∧ i + 2 < optionsFieldSize then
        msgTypeName (raw.get (i + 2)) else name) r) :
    EndsWithName raw i name r := by
  have hstep : TagFollows raw i (i + 2 + (raw.get (i + 1)).toNat) :=
    ⟨hi, hend, (if_neg hpad).symm⟩
  split at h
  · rename_i htype
    exact h.option hstep htype.1 htype.2
  · rename_i hno
    by_cases htype : raw.get i = Tag.dhcpMessageType
    · -- the option has no value byte inside the field, and nothing is behind it
      have hout : optionsFieldSize ≤ i + 2 := Nat.le_of_not_lt fun hin => hno ⟨htype, hin⟩
      rcases h with ⟨k, ⟨hk, -⟩, -⟩ | ⟨-, rfl⟩
      · rw [typesFrom_end (.inl (by omega))] at hk
        cases hk
      · exact endsWithName_end (.inl hout) r
    · exact h.skip hstep htype

/-- A pass over an option takes the name, if it is one of a type, and goes behind the value. -/
theorem msgTypeBody_option (hi : i < optionsFieldSize) (hpad : raw.get i ≠ Tag.pad)
    (hend : raw.get i ≠ Tag.endMark) (name : CString) :
    msgTypeBody raw (i, name) =
      let name' := if raw.get i = Tag.dhcpMessageType ∧ i + 2 < optionsFieldSize then
        msgTypeName (raw.get (i + 2)) else name
      if optionsFieldSize ≤ i + 2 + (raw.get (i + 1)).toNat then .done name'
      else .next (i + 2 + (raw.get (i + 1)).toNat, name') := by
  have hindex : i + 1 + ((raw.get (i + 1)).toNat + 1) = i + 2 + (raw.get (i + 1)).toNat := by
    omega
  rw [msgTypeBody, if_pos hi]
  apply (if_neg hpad).trans
  apply (if_neg hend).trans
  dsimp only
  rw [hindex]
  by_cases hlast : optionsFieldSize ≤ i + 1
  · have hbehind : optionsFieldSize ≤ i + 2 + (raw.get (i + 1)).toNat := by omega
    rw [if_pos hlast, if_pos hbehind]
    rfl
  · rw [if_neg hlast]
    rfl

theorem run_msgType {fuel : Nat} {name r : CString}
    (h : Loop.run (msgTypeBody raw) fuel (i, name) = some r) : EndsWithName raw i name r := by
  induction fuel generalizing i name with
  | zero => cases h
  | succ fuel ih =>
    by_cases hi : i < optionsFieldSize
    · by_cases hpad : raw.get i = Tag.pad
      · have hbody : msgTypeBody raw (i, name) = .next (i + 1, name) := by
          rw [msgTypeBody, if_pos hi]
          exact if_pos hpad
        rw [Loop.run_next hbody] at h
        have hne : raw.get i ≠ Tag.endMark ∧ raw.get i ≠ Tag.dhcpMessageType := by
          rw [hpad]
          decide
        exact (ih h).skip ⟨hi, hne.1, (if_pos hpad).symm⟩ hne.2
      by_cases hend : raw.get i = Tag.endMark
      · have hbody : msgTypeBody raw (i, name) = .done name := by
          rw [msgTypeBody, if_pos hi]
          exact (if_neg hpad).trans (if_pos hend)
        rw [Loop.run_done hbody] at h
        obtain rfl := Option.some.inj h
        exact endsWithName_end (.inr hend) name
      · apply endsWithName_option hi hpad hend
        have hbody := msgTypeBody_option hi hpad hend name
        dsimp only at hbody
        generalize (if raw.get i = Tag.dhcpMessageType ∧ i + 2 < optionsFieldSize then
          msgTypeName (raw.get (i + 2)) else name) = name' at hbody ⊢
        split at hbody
        · rw [Loop.run_done hbody] at h
          obtain rfl := Option.some.inj h
          exact endsWithName_end (.inl (by omega)) name'
        · rw [Loop.run_next hbody] at h
          exact ih h
    · have hbody : msgTypeBody raw (i, name) = .done name := by
        rw [msgTypeBody, if_neg hi]
      rw [Loop.run_done hbody] at h
      obtain rfl := Option.some.inj h
      exact endsWithName_end (.inl (by omega)) name

/-- The GUI's name of a field with an option 53 is that of the last one. -/
theorem getMsgType_last (h : IsGreatest (typesFrom raw 0) k) :
    getMsgType raw = .ok (msgTypeName (raw.get (k + 2))) := by
  obtain ⟨name, hname⟩ := getMsgType_ok raw
  rw [hname]
  unfold getMsgType at hname
  cases hrun : Loop.run (msgTypeBody raw) (optionsFieldSize + 1) (0, []) with
  | none =>
    rw [hrun] at hname
    cases hname
  | some r =>
    rw [hrun] at hname
    obtain rfl := Except.ok.inj hname
    rcases run_msgType hrun with ⟨k', hk', rfl⟩ | ⟨hnone, -⟩
    · rw [if_neg (msgTypeName_ne_nil _), hk'.unique h]
    · rw [hnone] at h
      exact absurd h.1 (Set.notMem_empty k)

end Types

section Number

theorem spelledNumber_concat (bytes : List UInt8) (b : UInt8) :
    spelledNumber (bytes ++ [b]) = spelledNumber bytes * 256 + b.toNat := by
  rw [spelledNumber, List.reverse_append, List.reverse_singleton, List.singleton_append,
    List.map_cons, Nat.ofDigits_cons, spelledNumber]
  ring

/-- The number of an option is what its bytes spell, in 32 bits. -/
theorem toNat_parseNumber {n i : Nat} {raw : Buffer n} {lenght : UInt8}
    {v : Buffer optionMaxLenght} (hv : ∀ k, k < lenght.toNat → v.get k = raw.get (i + k)) :
    (parseNumber lenght v).toNat = spelledNumber (raw.readFrom i lenght.toNat) % 2 ^ 32 := by
  unfold parseNumber
  generalize lenght.toNat = length at hv
  induction length with
  | zero => rfl
  | succ length ih =>
    have ih := ih fun k hk => hv k (Nat.lt_succ_of_lt hk)
    rw [List.range_succ, List.foldl_append, List.foldl_cons, List.foldl_nil,
      toNat_shift_byte_mod, ih, hv length (Nat.lt_succ_self _), Buffer.readFrom_concat,
      spelledNumber_concat]
    omega

end Number

section Server

variable {raw : Buffer optionsFieldSize}

/-- The options that a scan without an overrun has stored fit into the value buffer. -/
theorem stored_lenght {s : ParseState} (h : Loop.Visits (parseBody raw) parseEntry s) :
    s.overrun = false → ∀ o ∈ s.dest, o.lenght.toNat ≤ optionMaxLenght := by
  refine h.invariant (P := fun s => s.overrun = false →
    ∀ o ∈ s.dest, o.lenght.toNat ≤ optionMaxLenght) ?_ ?_
  · intro _ o ho
    cases ho
  · intro s s' ih hb hover o ho
    obtain ⟨-, ⟨-, rfl⟩ | ⟨-, -, rfl⟩⟩ := parseBody_next hb
    · exact ih hover o ho
    · obtain ⟨hbefore, hhere⟩ := Bool.or_eq_false_iff.mp hover
      rcases mem_dhcpOptionAdd ho with ho | rfl
      · exact ih hbefore o ho
      · exact (overrunAt_eq_false.mp hhere).1

theorem parsed_lenght {options : List DhcpOption} (h : dhcpOptionParse raw = .ok options) :
    ∀ o ∈ options, o.lenght.toNat ≤ optionMaxLenght := by
  obtain ⟨fuel, i, hrun⟩ := dhcpOptionParse_eq_ok.mp h
  exact stored_lenght (scan_result hrun) rfl

/-- The message type that the server takes from a field. -/
theorem parsed_number {options : List DhcpOption} {o : DhcpOption}
    (h : dhcpOptionParse raw = .ok options)
    (ho : dhcpOptionRetrieve options Tag.dhcpMessageType = some o) :
    ∃ first, IsLeast (typesFrom raw 0) first ∧ o.number.toNat =
      spelledNumber (raw.readFrom (first + 2) (raw.get (first + 1)).toNat) % 2 ^ 32 := by
  have hfind : findOption raw Tag.dhcpMessageType (packetOptionsSize + 1) 0 = some o := by
    rw [findOption_of_parse h, ho]
  obtain ⟨first, hleast, rfl⟩ := findOption_type hfind
  refine ⟨first, hleast, ?_⟩
  have hfits : (raw.get (first + 1)).toNat ≤ optionMaxLenght :=
    parsed_lenght h _ (List.mem_of_find?_eq_some ho)
  have htype : dhcpOptionTagToType (raw.get first) = .numeric := by
    rw [hleast.1.2.1]
    rfl
  have hnumber : (optionAt raw first).number = parseNumber (raw.get (first + 1))
      (Buffer.tabulate optionMaxLenght fun k =>
        if k < (raw.get (first + 1)).toNat then raw.get (first + 2 + k) else 0) := by
    rw [optionAt, htype]
    exact number_of_value
  rw [hnumber]
  apply toNat_parseNumber
  intro k hk
  rw [Buffer.get_tabulate, if_pos (hk.trans_le hfits), if_pos hk]

end Server

theorem msgTypeName_unknown {b : UInt8} (h : ¬(1 ≤ b.toNat ∧ b.toNat ≤ 8)) :
    msgTypeName b = "UNKNOWN".toList := by
  have hne : ∀ k : UInt8, 1 ≤ k.toNat ∧ k.toNat ≤ 8 → b ≠ k := by
    rintro k hk rfl
    exact h hk
  rw [msgTypeName, if_neg (hne 1 (by decide)), if_neg (hne 2 (by decide)),
    if_neg (hne 3 (by decide)), if_neg (hne 4 (by decide)), if_neg (hne 5 (by decide)),
    if_neg (hne 6 (by decide)), if_neg (hne 7 (by decide)), if_neg (hne 8 (by decide))]

/-- The names of the GUI are those of the server for the eight types. -/
theorem names_type_iff {t : UInt32} (ht : 1 ≤ t ∧ t ≤ 8) (b : UInt8) :
    rfc2131DhcpMessageTypeToStr t = "DHCP_".toList ++ msgTypeName b ↔ b.toNat = t.toNat := by
  have htable : ∀ n m : Fin 8, rfc2131DhcpMessageTypeToStr (UInt32.ofNat (n + 1)) =
      "DHCP_".toList ++ msgTypeName (UInt8.ofNat (m + 1)) ↔ m = n := by
    decide +kernel
  have hunknown : ∀ n : Fin 8, rfc2131DhcpMessageTypeToStr (UInt32.ofNat (n + 1)) ≠
      "DHCP_".toList ++ "UNKNOWN".toList := by
    decide +kernel
  obtain ⟨hlow, hhigh⟩ : 1 ≤ t.toNat ∧ t.toNat ≤ 8 := ht
  obtain ⟨n, hn⟩ : ∃ n : Fin 8, t = UInt32.ofNat (n + 1) := by
    refine ⟨⟨t.toNat - 1, by omega⟩, ?_⟩
    simp only [Nat.sub_add_cancel hlow, UInt32.ofNat_toNat]
  have htn : t.toNat = n + 1 := by
    rw [hn, UInt32.toNat_ofNat_of_lt' (by have := n.isLt; simp only [UInt32.size]; omega)]
  by_cases hb : 1 ≤ b.toNat ∧ b.toNat ≤ 8
  · obtain ⟨m, hm⟩ : ∃ m : Fin 8, b = UInt8.ofNat (m + 1) := by
      refine ⟨⟨b.toNat - 1, by omega⟩, ?_⟩
      simp only [Nat.sub_add_cancel hb.1, UInt8.ofNat_toNat]
    have hbm : b.toNat = m + 1 := by
      rw [hm, UInt8.toNat_ofNat_of_lt' (by have := m.isLt; simp only [UInt8.size]; omega)]
    rw [htn, hbm, hn, hm, htable, Fin.ext_iff]
    omega
  · rw [msgTypeName_unknown hb, hn]
    constructor
    · intro h
      exact absurd h (hunknown n)
    · intro h
      rw [hn] at htn
      omega

/-- One option 53 of one byte begins with what it spells. -/
theorem lastBeginsWithFirst_single {raw : Buffer optionsFieldSize} {i : Nat}
    (hone : typesFrom raw 0 = {i}) (hlenght : raw.get (i + 1) = 1) : LastBeginsWithFirst raw := by
  have hsmall := (raw.get (i + 2)).toNat_lt
  refine ⟨i, i, ?_, ?_, ?_⟩
  · rw [hone]
    exact isLeast_singleton
  · rw [hone]
    exact isGreatest_singleton
  · rw [hlenght]
    show (raw.get (i + 2)).toNat = spelledNumber [raw.get (i + 2)] % 2 ^ 32
    rw [← List.nil_append [raw.get (i + 2)], spelledNumber_concat]
    show _ = (0 * 256 + (raw.get (i + 2)).toNat) % 2 ^ 32
    omega

/-- GUI and server agree on the type of an accepted packet exactly when its last option 53 begins
with what its first one spells. -/
theorem message_name_iff {m m' : Message} (h : dhcpPacketParse m = .ok (true, m'))
    (ht : 1 ≤ m'.type ∧ m'.type ≤ 8) :
    NamesType (packetOptions m.packet) m'.type ↔ LastBeginsWithFirst (packetOptions m.packet) := by
  rcases dhcpPacketParse_cases h with ⟨-, hok, -⟩ | ⟨-, options, hparse, hoption⟩
  · cases hok
  rcases hoption with ⟨-, hok, -⟩ | ⟨o, ho, -, rfl⟩
  · cases hok
  obtain ⟨first, hfirst, hnumber⟩ := parsed_number hparse ho
  obtain ⟨last, hlast⟩ : ∃ last, IsGreatest (typesFrom (packetOptions m.packet) 0) last := by
    apply BddAbove.exists_isGreatest_of_nonempty
    · exact ⟨optionsFieldSize, fun k hk => by have := hk.2.2; omega⟩
    · exact ⟨first, hfirst.1⟩
  constructor
  · rintro ⟨name, hname, hsame⟩
    rw [getMsgType_last hlast] at hname
    obtain rfl := Except.ok.inj hname
    have hbyte := (names_type_iff ht _).mp hsame
    exact ⟨first, last, hfirst, hlast, hbyte.trans hnumber⟩
  · rintro ⟨first', last', hfirst', hlast', hbyte⟩
    obtain rfl := hfirst'.unique hfirst
    obtain rfl := hlast'.unique hlast
    refine ⟨_, getMsgType_last hlast, (names_type_iff ht _).mpr ?_⟩
    exact hbyte.trans hnumber.symm

/-- A message whose packet carries the given options behind the cookie. -/
def messageWith (options : List UInt8) : Message :=
  dhcpMessageNew.setPacket
    ((Buffer.zero packetSize).write 236 ([0x63, 0x82, 0x53, 0x63] ++ options))

/-- The type of a message that is accepted. -/
def acceptedType (m : Message) : Option UInt32 :=
  (dhcpPacketParse m).toOption.bind fun r => if r.1 then some r.2.type else none

theorem exists_of_acceptedType {m : Message} {t : UInt32} (h : acceptedType m = some t) :
    ∃ m', dhcpPacketParse m = .ok (true, m') ∧ m'.type = t := by
  obtain ⟨⟨ok, m'⟩, hparse, htype⟩ := Option.bind_eq_some_iff.mp h
  cases ok with
  | false => cases htype
  | true => exact ⟨m', toOption_eq_some.mp hparse, Option.some.inj htype⟩

/-- The packet is accepted as a DISCOVER, and the GUI gives it another name. -/
def MisnamedDiscover (m : Message) : Prop :=
  ∃ m', dhcpPacketParse m = .ok (true, m') ∧ m'.type = MsgType.discover ∧
    ¬NamesType (packetOptions m.packet) m'.type

theorem misnamed_of_other {m : Message} {other : CString}
    (h : acceptedType m = some MsgType.discover)
    (hother : getMsgType (packetOptions m.packet) = .ok other) (hne : other ≠ "DISCOVER".toList) :
    MisnamedDiscover m := by
  obtain ⟨m', hparse, htype⟩ := exists_of_acceptedType h
  refine ⟨m', hparse, htype, ?_⟩
  rintro ⟨name, hname, hsame⟩
  rw [hother] at hname
  obtain rfl := Except.ok.inj hname
  have hdiscover : rfc2131DhcpMessageTypeToStr MsgType.discover =
      "DHCP_".toList ++ "DISCOVER".toList := by decide
  rw [htype, hdiscover] at hsame
  exact hne (List.append_cancel_left hsame).symm

/-- DISCOVER, and in a second option 53 REQUEST: the GUI calls it a REQUEST. A DISCOVER in two
bytes it calls UNKNOWN. -/
theorem message_name_differs :
    MisnamedDiscover (messageWith [53, 1, 1, 53, 1, 3, 255]) ∧
      MisnamedDiscover (messageWith [53, 2, 0, 1, 255]) := by
  have hrepeated : acceptedType (messageWith [53, 1, 1, 53, 1, 3, 255]) =
      some MsgType.discover := by
    decide +kernel
  have hlast : getMsgType (packetOptions (messageWith [53, 1, 1, 53, 1, 3, 255]).packet) =
      .ok "REQUEST".toList := by
    decide +kernel
  have hlong : acceptedType (messageWith [53, 2, 0, 1, 255]) = some MsgType.discover := by
    decide +kernel
  have hfront : getMsgType (packetOptions (messageWith [53, 2, 0, 1, 255]).packet) =
      .ok "UNKNOWN".toList := by
    decide +kernel
  exact ⟨misnamed_of_other hrepeated hlast (by decide), misnamed_of_other hlong hfront (by decide)⟩

/-- Both call a plain INFORM so. -/
theorem message_name_inform :
    ∃ m', dhcpPacketParse (messageWith [53, 1, 8, 255]) = .ok (true, m') ∧
      NamesType (packetOptions (messageWith [53, 1, 8, 255]).packet) m'.type := by
  obtain ⟨m', hparse, htype⟩ : ∃ m',
      dhcpPacketParse (messageWith [53, 1, 8, 255]) = .ok (true, m') ∧ m'.type = 8 :=
    exists_of_acceptedType (by decide +kernel)
  set raw := packetOptions (messageWith [53, 1, 8, 255]).packet with hraw
  have hstep : TagFollows raw 0 3 := ⟨by decide, by decide +kernel, by decide +kernel⟩
  have hend : typesFrom raw 3 = ∅ := typesFrom_end (.inr (by decide +kernel))
  have hone : typesFrom raw 0 = {0} := by
    ext k
    rw [mem_typesFrom_step hstep, hend]
    have htag : raw.get 0 = Tag.dhcpMessageType ∧ 0 + 2 < optionsFieldSize :=
      ⟨by decide +kernel, by decide⟩
    simp only [htag, and_true, Set.mem_empty_iff_false, or_false, Set.mem_singleton_iff]
  refine ⟨m', hparse, (message_name_iff hparse ?_).mpr ?_⟩
  · rw [htype]
    decide
  · exact lastBeginsWithFirst_single hone (by decide +kernel)

end DHCPServer
