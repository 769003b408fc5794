import DHCPServer.Framework.FirstMatch
import DHCPServer.Packet.Receive

namespace DHCPServer

/-- The options field holds the options from an index on, followed by the END mark where the
parser would still look for a tag. -/
def HoldsAt (raw : Buffer optionsFieldSize) : Nat → List DhcpOption → Prop
  | i, [] => i < packetOptionsSize → raw.get i = Tag.endMark
  | i, o :: os =>
    raw.get i = o.tag ∧ raw.get (i + 1) = o.lenght ∧
      (∀ k, k < o.lenght.toNat → raw.get (i + 2 + k) = (serializeOptionValue o).getD k 0) ∧
      HoldsAt raw (i + 2 + o.lenght.toNat) os

/-- The option as it comes out of a parse of its own bytes. -/
def DhcpOption.reparsed (o : DhcpOption) : DhcpOption where
  type := dhcpOptionTagToType o.tag
  tag := o.tag
  lenght := o.lenght
  value := parseOptionValue (dhcpOptionTagToType o.tag) o.lenght
    (Buffer.tabulate optionMaxLenght fun k =>
      if k < o.lenght.toNat then (serializeOptionValue o).getD k 0 else 0)

@[simp] theorem reparsed_tag (o : DhcpOption) : o.reparsed.tag = o.tag := rfl
@[simp] theorem reparsed_lenght (o : DhcpOption) : o.reparsed.lenght = o.lenght := rfl

/-- Options that a packet can carry: tags other than PAD and END, each once, and values that fit
the value union. -/
structure Sendable (options : List DhcpOption) : Prop where
  tags : ∀ o ∈ options, o.tag ≠ Tag.pad ∧ o.tag ≠ Tag.endMark
  lengths : ∀ o ∈ options, o.lenght.toNat ≤ optionMaxLenght
  distinct : (options.map DhcpOption.tag).Nodup

section Serialize

variable {options : List DhcpOption} {bytes : Nat} {raw : Buffer optionsFieldSize}

theorem length_serializeOptionValue {o : DhcpOption} (h : o.lenght.toNat ≤ optionMaxLenght) :
    (serializeOptionValue o).length = o.lenght.toNat := by
  unfold serializeOptionValue
  cases o.type with
  | numeric | ip => simp
  | string | bool | bin => simpa using h

theorem wireSize_cons (o : DhcpOption) (os : List DhcpOption) :
    wireSize (o :: os) = 2 + o.lenght.toNat + wireSize os := by
  rw [wireSize, List.map_cons, List.sum_cons, wireSize]

/-- What is serialised behind an index leaves the bytes before it alone. -/
theorem serializeFrom_before {j : Nat} (hj : j < bytes) :
    (serializeFrom options bytes raw).2.get j = raw.get j := by
  induction options generalizing bytes raw with
  | nil => exact Buffer.get_write_out _ (.inl hj)
  | cons o os ih =>
    rw [serializeFrom]
    split
    · exact Buffer.get_write_out _ (.inl hj)
    · rw [ih (by omega)]
      exact Buffer.get_write_out _ (.inl hj)

/-- The END mark stands behind the last option. -/
theorem serializeFrom_end (hfit : bytes + wireSize options ≤ packetOptionsSize) :
    (serializeFrom options bytes raw).2.get (bytes + wireSize options) = Tag.endMark := by
  induction options generalizing bytes raw with
  | nil =>
    have hone : 0 < [Tag.endMark].length := by simp
    have hlt : bytes + 0 < optionsFieldSize := lt_of_le_of_lt hfit (by decide)
    exact Buffer.get_write_in raw hone hlt
  | cons o os ih =>
    rw [wireSize_cons] at hfit ⊢
    rw [serializeFrom, if_neg (by omega)]
    have hindex : bytes + (2 + o.lenght.toNat + wireSize os) =
        bytes + 2 + o.lenght.toNat + wireSize os := by omega
    rw [hindex]
    apply ih
    omega

/-- Behind the END mark the bytes stay as they were. -/
theorem serializeFrom_after (hl : ∀ o ∈ options, o.lenght.toNat ≤ optionMaxLenght)
    (hfit : bytes + wireSize options ≤ packetOptionsSize) {j : Nat}
    (hj : bytes + wireSize options < j) : (serializeFrom options bytes raw).2.get j = raw.get j := by
  induction options generalizing bytes raw with
  | nil =>
    apply Buffer.get_write_out
    right
    show bytes + 1 ≤ j
    have hnil : wireSize [] = 0 := rfl
    omega
  | cons o os ih =>
    rw [wireSize_cons] at hfit hj
    have hlen := length_serializeOptionValue (hl o (by simp))
    rw [serializeFrom, if_neg (by omega), ih (fun o ho => hl o (by simp [ho])) (by omega) (by omega)]
    apply Buffer.get_write_out
    right
    rw [List.length_cons, List.length_cons, hlen]
    omega

/-- Options that fit are all written, one behind the other, with the END mark after them. -/
theorem serializeFrom_holds (hl : ∀ o ∈ options, o.lenght.toNat ≤ optionMaxLenght)
    (hfit : bytes + wireSize options ≤ packetOptionsSize) :
    HoldsAt (serializeFrom options bytes raw).2 bytes options := by
  induction options generalizing bytes raw with
  | nil => exact fun _ => serializeFrom_end hfit
  | cons o os ih =>
    rw [wireSize_cons] at hfit
    have hlen := length_serializeOptionValue (hl o (by simp))
    have hno : ¬bytes + 2 + o.lenght.toNat > packetOptionsSize := by omega
    rw [serializeFrom, if_neg hno]
    set raw' := raw.write bytes (o.tag :: o.lenght :: serializeOptionValue o) with hraw'
    have hput : ∀ k, k < 2 + o.lenght.toNat →
        (serializeFrom os (bytes + 2 + o.lenght.toNat) raw').2.get (bytes + k) =
          (o.tag :: o.lenght :: serializeOptionValue o).getD k 0 := by
      intro k hk
      have hsize : packetOptionsSize < optionsFieldSize := by decide
      rw [serializeFrom_before (by omega), hraw']
      refine Buffer.get_write_in _ ?_ (by omega)
      rw [List.length_cons, List.length_cons, hlen]
      omega
    refine ⟨hput 0 (by omega), hput 1 (by omega), ?_, ?_⟩
    · intro k hk
      have h := hput (k + 2) (by omega)
      rw [List.getD_cons_succ, List.getD_cons_succ] at h
      rw [← h]
      congr 1
      omega
    · exact ih (fun o ho => hl o (by simp [ho])) (by omega)

/-- Options that are all written have fitted. -/
theorem fits_of_serializeFrom (hb : bytes ≤ packetOptionsSize)
    (h : (serializeFrom options bytes raw).1 = true) :
    bytes + wireSize options ≤ packetOptionsSize := by
  induction options generalizing bytes raw with
  | nil => exact hb
  | cons o os ih =>
    rw [serializeFrom] at h
    split at h
    · cases h
    · have hrest := ih (by omega) h
      rw [wireSize_cons]
      omega

end Serialize

section Parse

variable {options : List DhcpOption} {raw : Buffer optionsFieldSize} {i : Nat}

/-- The option at an index whose bytes are those of `o`. -/
theorem optionAt_of_bytes {o : DhcpOption} (htag : raw.get i = o.tag)
    (hlen : raw.get (i + 1) = o.lenght)
    (hval : ∀ k, k < o.lenght.toNat → raw.get (i + 2 + k) = (serializeOptionValue o).getD k 0) :
    optionAt raw i = o.reparsed := by
  have hbuf : (Buffer.tabulate optionMaxLenght fun k =>
      if k < o.lenght.toNat then raw.get (i + 2 + k) else 0) =
      Buffer.tabulate optionMaxLenght fun k =>
        if k < o.lenght.toNat then (serializeOptionValue o).getD k 0 else 0 := by
    apply Buffer.ext_get
    intro k hk
    simp only [Buffer.get_tabulate, hk, if_true]
    split
    · exact hval k ‹_›
    · rfl
  simp only [optionAt, DhcpOption.reparsed, htag, hlen, hbuf]

theorem optionAt_of_holds {o : DhcpOption} {os : List DhcpOption}
    (h : HoldsAt raw i (o :: os)) : optionAt raw i = o.reparsed := by
  obtain ⟨htag, hlen, hval, -⟩ := h
  exact optionAt_of_bytes htag hlen hval

/-- The scan reads back every option, each as a parse of its bytes gives it. -/
theorem scan_of_holds (hs : Sendable options) {dest : List DhcpOption}
    (hnew : ∀ o ∈ options, ∀ d ∈ dest, d.tag ≠ o.tag) (h : HoldsAt raw i options)
    (hfit : i + wireSize options ≤ packetOptionsSize) :
    ∃ fuel j, Loop.run (parseBody raw) fuel ⟨i, dest, false⟩ =
      some ⟨j, dest ++ options.map DhcpOption.reparsed, false⟩ := by
  induction options generalizing i dest with
  | nil =>
    refine ⟨1, i, ?_⟩
    have hdone : parseBody raw ⟨i, dest, false⟩ = .done ⟨i, dest, false⟩ := by
      unfold parseBody
      by_cases hi : i < packetOptionsSize
      · have hend := h hi
        have hpad : Tag.endMark ≠ Tag.pad := by decide
        simp [hi, hend, hpad]
      · simp [hi]
    rw [Loop.run_done hdone]
    simp
  | cons o os ih =>
    have hat := optionAt_of_holds h
    obtain ⟨htag, hlen, hval, hrest⟩ := h
    rw [wireSize_cons] at hfit
    obtain ⟨hpad, hend⟩ := hs.tags o (by simp)
    have hi : i < packetOptionsSize := by omega
    have hb := parseBody_option (s := ⟨i, dest, false⟩) hi (htag ▸ hpad) (htag ▸ hend)
    have hover : overrunAt raw i = false := by
      have hmax := hs.lengths o (by simp)
      have hsize : packetOptionsSize < optionsFieldSize := by decide
      simp only [overrunAt, hlen, Bool.or_eq_false_iff, decide_eq_false_iff_not]
      omega
    have hadd : dhcpOptionAdd dest o.reparsed = dest ++ [o.reparsed] := by
      have hnone : dhcpOptionRetrieve dest o.reparsed.tag = none :=
        dhcpOptionRetrieve_eq_none.mpr (hnew o (by simp))
      rw [dhcpOptionAdd, hnone]
      rfl
    rw [hat, hadd, hover, hlen] at hb
    have hdist := hs.distinct
    rw [List.map_cons, List.nodup_cons] at hdist
    have hs' : Sendable os := ⟨fun x hx => hs.tags x (by simp [hx]),
      fun x hx => hs.lengths x (by simp [hx]), hdist.2⟩
    have hnew' : ∀ x ∈ os, ∀ d ∈ dest ++ [o.reparsed], d.tag ≠ x.tag := by
      intro x hx d hd
      rcases List.mem_append.mp hd with hd | hd
      · exact hnew x (by simp [hx]) d hd
      · rw [List.mem_singleton.mp hd, reparsed_tag]
        intro heq
        exact hdist.1 (heq ▸ List.mem_map_of_mem hx)
    obtain ⟨fuel, j, hrun⟩ := ih hs' hnew' hrest (by omega)
    refine ⟨fuel + 1, j, ?_⟩
    rw [Loop.run_next hb]
    simpa using hrun

theorem parse_of_holds (hs : Sendable options) (h : HoldsAt raw 0 options)
    (hfit : wireSize options ≤ packetOptionsSize) :
    dhcpOptionParse raw = .ok (options.map DhcpOption.reparsed) := by
  have hnew : ∀ o ∈ options, ∀ d ∈ ([] : List DhcpOption), d.tag ≠ o.tag := by simp
  obtain ⟨fuel, j, hrun⟩ := scan_of_holds hs hnew h (by omega)
  exact dhcpOptionParse_eq_ok.mpr ⟨fuel, j, hrun⟩

/-- Every option of a parse was read at some index of the field, within the bounds. -/
theorem mem_dhcpOptionParse (h : dhcpOptionParse raw = .ok options) {o : DhcpOption}
    (ho : o ∈ options) : ∃ i, o = optionAt raw i ∧ overrunAt raw i = false := by
  obtain ⟨fuel, j, hrun⟩ := dhcpOptionParse_eq_ok.mp h
  have hvisit := scan_result hrun
  -- while no overrun has happened, all options read so far were read within the bounds
  have hinv := hvisit.invariant
    (P := fun s => s.overrun = false → ∀ o ∈ s.dest, ∃ i, o = optionAt raw i ∧
      overrunAt raw i = false) (by simp [parseEntry]) ?_
  · exact hinv rfl o ho
  · intro v v' hv hb
    obtain ⟨-, ⟨-, rfl⟩ | ⟨-, -, rfl⟩⟩ := parseBody_next hb
    · exact hv
    · intro hover x hx
      rw [Bool.or_eq_false_iff] at hover
      rcases mem_dhcpOptionAdd hx with hx | rfl
      · exact hv hover.1 x hx
      · exact ⟨v.i, rfl, hover.2⟩

theorem lenght_dhcpOptionParse (h : dhcpOptionParse raw = .ok options) {o : DhcpOption}
    (ho : o ∈ options) : o.lenght.toNat ≤ optionMaxLenght := by
  obtain ⟨i, rfl, hover⟩ := mem_dhcpOptionParse h ho
  simp only [overrunAt, Bool.or_eq_false_iff, decide_eq_false_iff_not, not_lt] at hover
  exact hover.1

end Parse

/-- The value is in the form a parse leaves it in: numbers below 256^length, a boolean 0 or 1,
nothing behind the value. -/
def DhcpOption.ValueCanonical (o : DhcpOption) : Prop :=
  match o.type with
  | .numeric | .ip => o.lenght.toNat ≤ 4 ∧ o.number.toNat < 256 ^ o.lenght.toNat
  | .bool => 1 ≤ o.lenght.toNat ∧ (o.value.get 0 = 0 ∨ o.value.get 0 = 1) ∧
      ∀ k, k < optionMaxLenght → 0 < k → o.value.get k = 0
  | .string | .bin => ∀ k, k < optionMaxLenght → o.lenght.toNat ≤ k → o.value.get k = 0

instance (o : DhcpOption) : Decidable o.ValueCanonical :=
  match h : o.type with
  | .numeric | .ip =>
    decidable_of_iff (o.lenght.toNat ≤ 4 ∧ o.number.toNat < 256 ^ o.lenght.toNat)
      (by simp [DhcpOption.ValueCanonical, h])
  | .bool =>
    decidable_of_iff (1 ≤ o.lenght.toNat ∧ (o.value.get 0 = 0 ∨ o.value.get 0 = 1) ∧
      ∀ k, k < optionMaxLenght → 0 < k → o.value.get k = 0)
      (by simp [DhcpOption.ValueCanonical, h])
  | .string | .bin =>
    decidable_of_iff (∀ k, k < optionMaxLenght → o.lenght.toNat ≤ k → o.value.get k = 0)
      (by simp [DhcpOption.ValueCanonical, h])

structure DhcpOption.Canonical (o : DhcpOption) : Prop where
  type : o.type = dhcpOptionTagToType o.tag
  lenght : o.lenght.toNat ≤ optionMaxLenght
  value : o.ValueCanonical

instance (o : DhcpOption) : Decidable o.Canonical :=
  decidable_of_iff (o.type = dhcpOptionTagToType o.tag ∧ o.lenght.toNat ≤ optionMaxLenght ∧
    o.ValueCanonical) ⟨fun h => ⟨h.1, h.2.1, h.2.2⟩, fun h => ⟨h.type, h.lenght, h.value⟩⟩

/-- The same option: its number for the types that are read through it, all of its value bytes
for the others. -/
structure SameOption (o o' : DhcpOption) : Prop where
  type : o'.type = o.type
  tag : o'.tag = o.tag
  lenght : o'.lenght = o.lenght
  number : o.type = .numeric ∨ o.type = .ip → o'.number = o.number
  bytes : o.type ≠ .numeric → o.type ≠ .ip → o'.value = o.value

section Canonical

variable {o : DhcpOption}

/-- `value.number` of a freshly written number. -/
theorem number_of_value {x : UInt32} {type : DhcpOptionType} {tag lenght : UInt8} :
    (⟨type, tag, lenght, (Buffer.zero optionMaxLenght).write 0 (le32Bytes x)⟩ :
      DhcpOption).number = x := by
  have hget : ∀ k, k < 4 → ((Buffer.zero optionMaxLenght).write 0 (le32Bytes x)).get k =
      (le32Bytes x).getD k 0 := by
    intro k hk
    have hlen : (le32Bytes x).length = 4 := rfl
    have hsize : 0 + k < optionMaxLenght := by
      unfold optionMaxLenght
      omega
    have h := Buffer.get_write_in (Buffer.zero optionMaxLenght) (hlen ▸ hk) hsize
    rwa [Nat.zero_add] at h
  unfold DhcpOption.number
  rw [hget 0 (by omega), hget 1 (by omega), hget 2 (by omega), hget 3 (by omega)]
  exact be32_bytes x

/-- Shifting one more byte into a number; what does not fit is lost at the top. -/
theorem toNat_shift_byte_mod (a : UInt32) (b : UInt8) :
    ((a <<< 8) ||| b.toUInt32).toNat = (a.toNat * 256 + b.toNat) % 2 ^ 32 := by
  have hb := b.toNat_lt
  have hshift : (a <<< 8).toNat = (a.toNat % 2 ^ 24) <<< 8 := by
    rw [UInt32.toNat_shiftLeft]
    show a.toNat <<< 8 % 2 ^ 32 = _
    rw [Nat.shiftLeft_eq, Nat.shiftLeft_eq]
    omega
  rw [UInt32.toNat_or, UInt8.toNat_toUInt32, hshift,
    ← Nat.shiftLeft_add_eq_or_of_lt (by omega), Nat.shiftLeft_eq]
  omega

/-- Shifting one more byte into a number of at most three bytes. -/
theorem toNat_shift_byte (a : UInt32) (b : UInt8) (h : a.toNat < 2 ^ 24) :
    ((a <<< 8) ||| b.toUInt32).toNat = a.toNat * 256 + b.toNat := by
  have hb := b.toNat_lt
  rw [toNat_shift_byte_mod, Nat.mod_eq_of_lt (by omega)]

/-- The big-endian digits of a number read back as the number. -/
theorem parseNumber_digits {lenght : UInt8} {x : UInt32} {v : Buffer optionMaxLenght}
    (hx : x.toNat < 256 ^ lenght.toNat)
    (hv : ∀ k, k < lenght.toNat →
      v.get k = UInt8.ofNat (x.toNat / 2 ^ (8 * (lenght.toNat - k - 1)))) :
    parseNumber lenght v = x := by
  -- the invariant of the loop: after n bytes the number is made of the n leading digits
  have key : ∀ n, n ≤ lenght.toNat →
      ((List.range n).foldl (fun (number : UInt32) i => (number <<< 8) ||| (v.get i).toUInt32)
        0).toNat = x.toNat / 256 ^ (lenght.toNat - n) := by
    intro n hn
    induction n with
    | zero => simp [Nat.div_eq_of_lt hx]
    | succ n ih =>
      have ih := ih (by omega)
      have hpow : (256 : Nat) ^ (lenght.toNat - n) = 256 ^ (lenght.toNat - (n + 1)) * 256 := by
        rw [← pow_succ]
        congr 1
        omega
      have hdiv : x.toNat / 256 ^ (lenght.toNat - n) =
          x.toNat / 256 ^ (lenght.toNat - (n + 1)) / 256 := by
        rw [hpow, Nat.div_div_eq_div_mul]
      have hbyte : (v.get n).toNat = x.toNat / 256 ^ (lenght.toNat - (n + 1)) % 256 := by
        rw [hv n (by omega), UInt8.toNat_ofNat', pow_mul, Nat.sub_sub]
        rfl
      have hsmall : x.toNat / 256 ^ (lenght.toNat - n) < 2 ^ 24 := by
        have h32 := x.toNat_lt
        rw [hdiv]
        have hle := Nat.div_le_self x.toNat (256 ^ (lenght.toNat - (n + 1)))
        omega
      rw [List.range_succ, List.foldl_append, List.foldl_cons, List.foldl_nil,
        toNat_shift_byte _ _ (by rw [ih]; exact hsmall), ih, hbyte, hdiv]
      omega
  apply UInt32.toNat_inj.mp
  rw [parseNumber, key _ le_rfl, Nat.sub_self, pow_zero, Nat.div_one]

theorem parseOptionValue_bool_out {lenght : UInt8} {v : Buffer optionMaxLenght} {k : Nat}
    (hk : 0 < k) : (parseOptionValue .bool lenght v).get k = 0 := by
  rw [parseOptionValue, Buffer.get_write_out, Buffer.get_zero]
  right
  rw [List.length_singleton]
  omega

theorem parseOptionValue_bytes_out {type : DhcpOptionType} {lenght : UInt8}
    {v : Buffer optionMaxLenght} (ht : type = .string ∨ type = .bin) {k : Nat}
    (hk : lenght.toNat ≤ k) : (parseOptionValue type lenght v).get k = 0 := by
  have hlen : 0 + (v.data.take lenght.toNat).length ≤ k := by
    rw [List.length_take]
    omega
  rcases ht with rfl | rfl <;>
    rw [parseOptionValue, Buffer.get_write_out _ (.inr hlen), Buffer.get_zero]

/-- The buffer a parse fills from the option's own bytes. -/
theorem get_reparse_buffer {k : Nat} (hk : k < o.lenght.toNat)
    (hmax : o.lenght.toNat ≤ optionMaxLenght) :
    (Buffer.tabulate optionMaxLenght fun k =>
      if k < o.lenght.toNat then (serializeOptionValue o).getD k 0 else 0).get k =
        (serializeOptionValue o).getD k 0 := by
  rw [Buffer.get_tabulate, if_pos (by omega), if_pos hk]

theorem getD_serialize_number (ht : o.type = .numeric ∨ o.type = .ip) {k : Nat}
    (hk : k < o.lenght.toNat) : (serializeOptionValue o).getD k 0 =
      UInt8.ofNat (o.number.toNat / 2 ^ (8 * (o.lenght.toNat - k - 1))) := by
  rcases ht with ht | ht <;> simp [serializeOptionValue, ht, hk]

theorem getD_serialize_bytes (hn : o.type ≠ .numeric) (hi : o.type ≠ .ip) {k : Nat}
    (hk : k < o.lenght.toNat) : (serializeOptionValue o).getD k 0 = o.value.get k := by
  have htake : (o.value.data.take o.lenght.toNat).getD k 0 = o.value.get k := by
    rw [List.getD_eq_getElem?_getD, List.getElem?_take_of_lt hk, ← List.getD_eq_getElem?_getD,
      Buffer.getD_data]
  unfold serializeOptionValue
  cases ht : o.type with
  | numeric => exact absurd ht hn
  | ip => exact absurd ht hi
  | string | bool | bin => exact htake

/-- A canonical option comes back from a parse of its own bytes. -/
theorem DhcpOption.Canonical.sameOption (h : o.Canonical) : SameOption o o.reparsed := by
  have hval := h.value
  have hmax := h.lenght
  refine ⟨h.type.symm, rfl, rfl, ?_, ?_⟩
  · intro ht
    have hnum : o.number.toNat < 256 ^ o.lenght.toNat := by
      unfold DhcpOption.ValueCanonical at hval
      rcases ht with ht | ht
      · simp only [ht] at hval
        exact hval.2
      · simp only [ht] at hval
        exact hval.2
    have hparse := parseNumber_digits hnum fun k hk =>
      (get_reparse_buffer hk hmax).trans (getD_serialize_number ht hk)
    have htype : dhcpOptionTagToType o.tag = .numeric ∨ dhcpOptionTagToType o.tag = .ip := by
      rwa [← h.type]
    unfold DhcpOption.reparsed parseOptionValue
    rcases htype with ht | ht <;> simp only [ht, hparse] <;> exact number_of_value
  · intro hn hi
    have hbuf := fun k (hk : k < o.lenght.toNat) =>
      (get_reparse_buffer hk hmax).trans (getD_serialize_bytes hn hi hk)
    apply Buffer.ext_get
    intro k hk
    unfold DhcpOption.ValueCanonical at hval
    simp only [DhcpOption.reparsed, ← h.type]
    cases ht : o.type with
    | numeric => exact absurd ht hn
    | ip => exact absurd ht hi
    | bool =>
      simp only [ht] at hval
      obtain ⟨hone, hfirst, hrest⟩ := hval
      cases k with
      | zero =>
        rw [parseOptionValue_bool, hbuf 0 (by omega)]
        rcases hfirst with h0 | h1
        · simp [h0]
        · simp [h1]
      | succ k =>
        rw [hrest (k + 1) hk (by omega), parseOptionValue_bool_out (by omega)]
    | string | bin =>
      simp only [ht] at hval
      by_cases hkl : k < o.lenght.toNat
      · rw [parseOptionValue_bytes (by simp) hkl hk, hbuf k hkl]
      · rw [hval k hk (by omega), parseOptionValue_bytes_out (by simp) (by omega)]

end Canonical

section Header

variable (p : Buffer packetSize) {off off' : Nat} {src : List UInt8}

@[simp] theorem length_be16Bytes (x : UInt16) : (be16Bytes x).length = 2 := rfl

@[simp] theorem length_be32Bytes (x : UInt32) : (be32Bytes x).length = 4 := rfl

theorem field16_write (x : UInt16) (h : off + 2 ≤ packetSize) :
    field16 (p.write off (be16Bytes x)) off = x := by
  have hget : ∀ k, k < 2 → (p.write off (be16Bytes x)).get (off + k) = (be16Bytes x).getD k 0 :=
    fun k hk => Buffer.get_write_in p hk (by omega)
  have h0 := hget 0 (by omega)
  rw [Nat.add_zero] at h0
  rw [field16, h0, hget 1 (by omega)]
  exact be16_bytes x

theorem field32_write (x : UInt32) (h : off + 4 ≤ packetSize) :
    field32 (p.write off (be32Bytes x)) off = x := by
  have hget : ∀ k, k < 4 → (p.write off (be32Bytes x)).get (off + k) = (be32Bytes x).getD k 0 :=
    fun k hk => Buffer.get_write_in p hk (by omega)
  have h0 := hget 0 (by omega)
  rw [Nat.add_zero] at h0
  rw [field32, h0, hget 1 (by omega), hget 2 (by omega), hget 3 (by omega)]
  exact be32_bytes x

theorem slice_write {n : Nat} (b : Buffer n) (h : off + n ≤ packetSize) :
    (p.write off b.data).slice off n = b := by
  apply Buffer.ext_get
  intro i hi
  rw [Buffer.get_slice _ _ _ hi, Buffer.get_write_in p (by simpa using hi) (by omega),
    Buffer.getD_data]

theorem field16_write_out (h : off + 2 ≤ off' ∨ off' + src.length ≤ off) :
    field16 (p.write off' src) off = field16 p off := by
  have hget : ∀ k, k < 2 → (p.write off' src).get (off + k) = p.get (off + k) :=
    fun k hk => Buffer.get_write_out p (by omega)
  rw [field16, field16, hget 1 (by omega)]
  exact congrArg (be16 · _) (hget 0 (by omega))

theorem field32_write_out (h : off + 4 ≤ off' ∨ off' + src.length ≤ off) :
    field32 (p.write off' src) off = field32 p off := by
  have hget : ∀ k, k < 4 → (p.write off' src).get (off + k) = p.get (off + k) :=
    fun k hk => Buffer.get_write_out p (by omega)
  rw [field32, field32, hget 1 (by omega), hget 2 (by omega), hget 3 (by omega)]
  exact congrArg (be32 · _ _ _) (hget 0 (by omega))

theorem slice_write_out {n : Nat} (h : off + n ≤ off' ∨ off' + src.length ≤ off) :
    (p.write off' src).slice off n = p.slice off n :=
  Buffer.slice_congr off n fun _ _ => Buffer.get_write_out p (by omega)

end Header

/-- The header fields of a message as they stand in a packet. -/
structure CarriesHeader (m : Message) (p : Buffer packetSize) : Prop where
  opcode : p.get 0 = m.opcode
  htype : p.get 1 = m.htype
  hlen : p.get 2 = m.hlen
  hops : p.get 3 = m.hops
  xid : field32 p 4 = m.xid
  secs : field16 p 8 = m.secs
  flags : field16 p 10 = m.flags
  ciaddr : field32 p 12 = m.ciaddr
  yiaddr : field32 p 16 = m.yiaddr
  siaddr : field32 p 20 = m.siaddr
  giaddr : field32 p 24 = m.giaddr
  chaddr : p.slice 28 16 = m.chaddr.slice 0 16
  sname : p.slice 44 64 = m.sname
  filename : p.slice 108 128 = m.filename
  cookie : field32 p 236 = m.cookie

section Build

variable {m : Message}

theorem dhcpPacketBuild_packet (hc : m.cookie = magicCookie) :
    (dhcpPacketBuild m).2.packet = ((buildHeader m).write 236 (be32Bytes m.cookie)).write
      optionsOffset (dhcpOptionsSerialize m.dhcpOptions
        (packetOptions ((buildHeader m).write 236 (be32Bytes m.cookie)))).2.data := by
  rw [dhcpPacketBuild, if_neg (not_not.mpr hc)]
  rfl

theorem dhcpPacketBuild_ok (hc : m.cookie = magicCookie)
    (hfit : wireSize m.dhcpOptions ≤ packetOptionsSize) : (dhcpPacketBuild m).1 = true := by
  rw [dhcpPacketBuild, if_neg (not_not.mpr hc)]
  exact serializeFrom_fits (by omega) _

/-- Only options that fit are ever built. -/
theorem wireSize_of_build (hc : m.cookie = magicCookie) (h : (dhcpPacketBuild m).1 = true) :
    wireSize m.dhcpOptions ≤ packetOptionsSize := by
  rw [dhcpPacketBuild, if_neg (not_not.mpr hc)] at h
  have hle := fits_of_serializeFrom (Nat.zero_le _) h
  omega

/-- A packet that was built carries the message's header. -/
theorem dhcpPacketBuild_header (hc : m.cookie = magicCookie) :
    CarriesHeader m (dhcpPacketBuild m).2.packet := by
  rw [dhcpPacketBuild_packet hc]
  generalize (dhcpOptionsSerialize m.dhcpOptions _).2 = raw
  have hbyte : ∀ k, k < 4 → (((buildHeader m).write 236 (be32Bytes m.cookie)).write
      optionsOffset raw.data).get k = [m.opcode, m.htype, m.hlen, m.hops].getD k 0 := by
    intro k hk
    simp (disch := simp [optionsOffset]; omega) only [buildHeader, Buffer.get_write_out]
    have h : (m.packet.write 0 [m.opcode, m.htype, m.hlen, m.hops]).get (0 + k) =
        [m.opcode, m.htype, m.hlen, m.hops].getD k 0 :=
      Buffer.get_write_in m.packet hk (by simp only [packetSize]; omega)
    rwa [Nat.zero_add] at h
  constructor
  case opcode => exact hbyte 0 (by omega)
  case htype => exact hbyte 1 (by omega)
  case hlen => exact hbyte 2 (by omega)
  case hops => exact hbyte 3 (by omega)
  case secs | flags =>
    simp (disch := simp [optionsOffset]) only [buildHeader, field16_write_out]
    exact field16_write _ _ (by decide)
  case chaddr | sname | filename =>
    simp (disch := simp [optionsOffset]) only [buildHeader, slice_write_out]
    exact slice_write _ _ (by decide)
  all_goals
    simp (disch := simp [optionsOffset]) only [buildHeader, field32_write_out]
    exact field32_write _ _ (by decide)

/-- The options field of a packet that was built is what the serialisation has left there. -/
theorem dhcpPacketBuild_field (hc : m.cookie = magicCookie) :
    ∃ raw, packetOptions (dhcpPacketBuild m).2.packet =
      (dhcpOptionsSerialize m.dhcpOptions raw).2 := by
  rw [dhcpPacketBuild_packet hc]
  exact ⟨_, slice_write _ _ (by decide)⟩

/-- The options of a packet that was built, as a parse of it gives them. -/
theorem dhcpPacketBuild_options (hc : m.cookie = magicCookie) (hs : Sendable m.dhcpOptions)
    (hfit : wireSize m.dhcpOptions ≤ packetOptionsSize) :
    dhcpOptionParse (packetOptions (dhcpPacketBuild m).2.packet) =
      .ok (m.dhcpOptions.map DhcpOption.reparsed) := by
  obtain ⟨raw, hfield⟩ := dhcpPacketBuild_field hc
  rw [hfield]
  exact parse_of_holds hs (serializeFrom_holds hs.lengths (by omega)) hfit

theorem retrieve_reparsed (options : List DhcpOption) (tag : UInt8) :
    dhcpOptionRetrieve (options.map DhcpOption.reparsed) tag =
      (dhcpOptionRetrieve options tag).map DhcpOption.reparsed := by
  unfold dhcpOptionRetrieve
  rw [List.find?_map]
  rfl

end Build

/-- What a parse recovers of a message's header: all of it, but only 16 bytes of `chaddr`. -/
structure SameHeader (m m' : Message) : Prop where
  opcode : m'.opcode = m.opcode
  htype : m'.htype = m.htype
  hlen : m'.hlen = m.hlen
  hops : m'.hops = m.hops
  xid : m'.xid = m.xid
  secs : m'.secs = m.secs
  flags : m'.flags = m.flags
  ciaddr : m'.ciaddr = m.ciaddr
  yiaddr : m'.yiaddr = m.yiaddr
  siaddr : m'.siaddr = m.siaddr
  giaddr : m'.giaddr = m.giaddr
  chaddr : ∀ k, k < 16 → m'.chaddr.get k = m.chaddr.get k
  sname : m'.sname = m.sname
  filename : m'.filename = m.filename

theorem parseHeader_sameHeader {m m₀ : Message} (h : CarriesHeader m m₀.packet)
    (options : List DhcpOption) (t : UInt32) :
    SameHeader m (((parseHeader m₀).setOptions options).setType t) where
  opcode := h.opcode
  htype := h.htype
  hlen := h.hlen
  hops := h.hops
  xid := h.xid
  secs := h.secs
  flags := h.flags
  ciaddr := h.ciaddr
  yiaddr := h.yiaddr
  siaddr := h.siaddr
  giaddr := h.giaddr
  chaddr := by
    intro k hk
    rw [setType_chaddr, setOptions_chaddr, parseHeader_chaddr]
    have hin : ((m₀.chaddr.write 0 (m₀.packet.slice 28 16).data).get (0 + k)) =
        (m₀.packet.slice 28 16).data.getD k 0 :=
      Buffer.get_write_in _ (by simpa using hk) (by simp only [chaddrLen]; omega)
    rw [Nat.zero_add] at hin
    rw [hin, Buffer.getD_data, h.chaddr, Buffer.get_slice _ _ _ hk, Nat.zero_add]
  sname := h.sname
  filename := h.filename

/-- A parse of a packet that was built, into any message. -/
theorem dhcpPacketParse_build {m m₀ : Message} {o53 : DhcpOption} (hc : m.cookie = magicCookie)
    (hs : Sendable m.dhcpOptions) (hfit : wireSize m.dhcpOptions ≤ packetOptionsSize)
    (h53 : dhcpOptionRetrieve m.dhcpOptions Tag.dhcpMessageType = some o53)
    (hpacket : m₀.packet = (dhcpPacketBuild m).2.packet) :
    dhcpPacketParse m₀ = .ok (true,
      ((parseHeader m₀).setOptions (m.dhcpOptions.map DhcpOption.reparsed)).setType
        o53.reparsed.number) := by
  have hcarries : CarriesHeader m m₀.packet := hpacket ▸ dhcpPacketBuild_header hc
  have hoptions := dhcpPacketBuild_options hc hs hfit
  rw [← hpacket] at hoptions
  have hok : (parseHeader m₀).cookie = magicCookie := hcarries.cookie.trans hc
  rw [dhcpPacketParse, if_neg (not_not.mpr hok)]
  simp only [parseHeader_packet, hoptions, bind, Except.bind, pure, Except.pure,
    setOptions_dhcpOptions, retrieve_reparsed, h53, Option.map_some]

/-- A tag between 1 and 254 is neither PAD nor END. -/
theorem tag_ne_marks {tag : UInt8} (h : 1 ≤ tag.toNat ∧ tag.toNat ≤ 254) :
    tag ≠ Tag.pad ∧ tag ≠ Tag.endMark := by
  constructor
  · rintro rfl
    exact absurd h.1 (by decide)
  · rintro rfl
    exact absurd h.2 (by decide)

/-- A message with the magic cookie and distinct canonical options, option 53 among them, that
fit into the options field is built, and a parse of the packet into any message gives its header,
its options in order and the type its option 53 states. -/
theorem packet_round_trip (m m₀ : Message) (o53 : DhcpOption)
    (hcookie : m.cookie = magicCookie)
    (hdistinct : (m.dhcpOptions.map DhcpOption.tag).Nodup)
    (htags : ∀ o ∈ m.dhcpOptions, 1 ≤ o.tag.toNat ∧ o.tag.toNat ≤ 254)
    (h53 : o53 ∈ m.dhcpOptions ∧ o53.tag = Tag.dhcpMessageType)
    (hcanon : ∀ o ∈ m.dhcpOptions, o.Canonical)
    (hfit : wireSize m.dhcpOptions ≤ packetOptionsSize)
    (hpacket : m₀.packet = (dhcpPacketBuild m).2.packet) :
    (dhcpPacketBuild m).1 = true ∧ ∃ m', dhcpPacketParse m₀ = .ok (true, m') ∧
      SameHeader m m' ∧ List.Forall₂ SameOption m.dhcpOptions m'.dhcpOptions ∧
      m'.type = o53.number := by
  have hs : Sendable m.dhcpOptions :=
    ⟨fun o ho => tag_ne_marks (htags o ho), fun o ho => (hcanon o ho).lenght, hdistinct⟩
  have hcarries : CarriesHeader m m₀.packet := hpacket ▸ dhcpPacketBuild_header hcookie
  have hfound : dhcpOptionRetrieve m.dhcpOptions Tag.dhcpMessageType = some o53 := by
    rw [← h53.2]
    exact find?_of_nodup hdistinct h53.1
  have hnumber : o53.reparsed.number = o53.number := by
    have hc53 := hcanon o53 h53.1
    refine hc53.sameOption.number (.inl ?_)
    rw [hc53.type, h53.2]
    rfl
  refine ⟨dhcpPacketBuild_ok hcookie hfit, _,
    dhcpPacketParse_build hcookie hs hfit hfound hpacket, ?_, ?_, hnumber⟩
  · exact parseHeader_sameHeader hcarries _ _
  · simp only [setType_dhcpOptions, setOptions_dhcpOptions, List.forall₂_map_right_iff]
    exact List.forall₂_same.mpr fun o ho => (hcanon o ho).sameOption

/-- A message with one option of each value type that fills the options field to its last
byte, so that the END mark lies behind the part that is parsed. -/
def fullMessage : Message :=
  { dhcpMessageNew with
    xid := 0xdeadbeef
    yiaddr := 0xc0a80017
    cookie := magicCookie
    dhcpOptions := [dhcpOptionNewValues 53 1 [5], dhcpOptionNewValues 54 4 [1, 0, 168, 192],
      dhcpOptionNewValues 19 1 [1], dhcpOptionNewValues 12 43 (List.replicate 43 97),
      dhcpOptionNewValues 61 253 (List.replicate 253 7)] }

theorem fullMessage_round_trip :
    wireSize fullMessage.dhcpOptions = packetOptionsSize ∧ (dhcpPacketBuild fullMessage).1 = true ∧
    ∃ m', dhcpPacketParse (dhcpPacketBuild fullMessage).2 = .ok (true, m') ∧
      SameHeader fullMessage m' ∧
      List.Forall₂ SameOption fullMessage.dhcpOptions m'.dhcpOptions ∧ m'.type = 5 := by
  have h5 : (dhcpOptionNewValues 53 1 [5]).number = 5 := by decide +kernel
  refine ⟨by decide +kernel, ?_⟩
  rw [← h5]
  exact packet_round_trip fullMessage (dhcpPacketBuild fullMessage).2
    (dhcpOptionNewValues 53 1 [5]) rfl (by decide +kernel) (by decide +kernel)
    (by decide +kernel) (by decide +kernel) (by decide +kernel) rfl

end DHCPServer
