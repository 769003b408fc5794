import DHCPServer.Packet.OptionParse

namespace DHCPServer

/-- A pass with the tag byte at `i` takes an option: it is neither PAD nor END and not behind the
part of the field that is parsed. -/
def takesOption (raw : Buffer optionsFieldSize) (i : Nat) : Bool :=
  decide (i < packetOptionsSize) && raw.get i != Tag.pad && raw.get i != Tag.endMark

/-- The indexes of the bytes of the field that a pass reads. -/
def bytesRead (raw : Buffer optionsFieldSize) (i : Nat) : List Nat :=
  if takesOption raw i then
    i :: (i + 1) :: (List.range (raw.get (i + 1)).toNat).map (i + 2 + ·)
  else if i < packetOptionsSize then [i]
  else []

/-- The indexes of the bytes of `value_buf` that the `memcpy` of a pass writes. -/
def bytesCopied (raw : Buffer optionsFieldSize) (i : Nat) : List Nat :=
  if takesOption raw i then List.range (raw.get (i + 1)).toNat else []

/-- The value of an option is made of bytes that stand one after the other in the field. -/
def ValueInside (raw : Buffer optionsFieldSize) (o : DhcpOption) : Prop :=
  ∃ v, v <:+: raw.data ∧ v.length = o.lenght.toNat ∧
    o.value = parseOptionValue o.type o.lenght ((Buffer.zero optionMaxLenght).write 0 v)

/-- In every pass the scan reads inside the field, does not copy a value that does not fit, and has
stored only options that fit. -/
structure ScansInBounds (raw : Buffer optionsFieldSize) : Prop where
  reads : ∀ s, Loop.Visits (parseBody raw) parseEntry s →
    ∀ k ∈ bytesRead raw s.i, k < optionsFieldSize
  rejects : ∀ s, Loop.Visits (parseBody raw) parseEntry s →
    overrunAt raw s.i = true → bytesCopied raw s.i = []
  stores : ∀ s, Loop.Visits (parseBody raw) parseEntry s →
    ∀ o ∈ s.dest, o.lenght.toNat ≤ optionMaxLenght ∧ ValueInside raw o

/-- Every option that the scan reaches fits into the field and into the value buffer. -/
def OptionsFit (raw : Buffer optionsFieldSize) : Prop :=
  ∀ i, OptionPosition raw i → takesOption raw i = true →
    (raw.get (i + 1)).toNat ≤ optionMaxLenght ∧ i + 2 + (raw.get (i + 1)).toNat ≤ optionsFieldSize

section Bounds

variable {raw : Buffer optionsFieldSize} {i : Nat}

theorem takesOption_iff : takesOption raw i = true ↔
    i < packetOptionsSize ∧ raw.get i ≠ Tag.pad ∧ raw.get i ≠ Tag.endMark := by
  simp [takesOption, and_assoc]

theorem overrunAt_eq_false : overrunAt raw i = false ↔
    (raw.get (i + 1)).toNat ≤ optionMaxLenght ∧
      i + 2 + (raw.get (i + 1)).toNat ≤ optionsFieldSize := by
  simp [overrunAt]

theorem overrunAt_eq_true : overrunAt raw i = true ↔
    optionMaxLenght < (raw.get (i + 1)).toNat ∨
      optionsFieldSize < i + 2 + (raw.get (i + 1)).toNat := by
  simp [overrunAt]

/-- The flag of the scan says that the `memcpy` of the pass leaves one of its two buffers. -/
theorem overrunAt_iff (h : takesOption raw i = true) : overrunAt raw i = true ↔
    (∃ k ∈ bytesRead raw i, optionsFieldSize ≤ k) ∨
      ∃ k ∈ bytesCopied raw i, optionMaxLenght ≤ k := by
  have hi := (takesOption_iff.mp h).1
  simp only [packetOptionsSize] at hi
  rw [overrunAt_eq_true]
  simp only [bytesRead, bytesCopied, h, if_true, List.mem_cons, List.mem_map, List.mem_range]
  have hfield : optionsFieldSize = 336 := rfl
  have hbuf : optionMaxLenght = 253 := rfl
  constructor
  · rintro (hlen | hend)
    · exact .inr ⟨optionMaxLenght, hlen, le_rfl⟩
    · exact .inl ⟨_, .inr (.inr ⟨(raw.get (i + 1)).toNat - 1, by omega, rfl⟩), by omega⟩
  · rintro (⟨k, rfl | rfl | ⟨j, hj, rfl⟩, hk⟩ | ⟨k, hk, hle⟩)
    · omega
    · omega
    · exact .inr (by omega)
    · exact .inl (by omega)

/-- Where everything fits, no pass reads behind the field. -/
theorem bytesRead_inside (h : takesOption raw i = true → overrunAt raw i = false) :
    ∀ k ∈ bytesRead raw i, k < optionsFieldSize := by
  intro k hk
  cases ht : takesOption raw i with
  | true =>
    by_contra hout
    have hover := (overrunAt_iff ht).mpr (.inl ⟨k, hk, not_lt.mp hout⟩)
    rw [h ht] at hover
    cases hover
  | false =>
    simp only [bytesRead, ht, Bool.false_eq_true, if_false] at hk
    split at hk
    · rename_i hi
      rw [List.mem_singleton.mp hk]
      exact lt_trans hi (by decide)
    · cases hk

/-- An option that fits is stored with the bytes that follow its length byte. -/
theorem valueInside_optionAt (h : overrunAt raw i = false) : ValueInside raw (optionAt raw i) := by
  obtain ⟨hlen, hend⟩ := overrunAt_eq_false.mp h
  have hlength : ((raw.data.drop (i + 2)).take (raw.get (i + 1)).toNat).length =
      (raw.get (i + 1)).toNat := by
    rw [List.length_take, List.length_drop, Buffer.length_data]
    omega
  refine ⟨(raw.data.drop (i + 2)).take (raw.get (i + 1)).toNat, ?_, hlength, ?_⟩
  · exact (List.take_prefix _ _).isInfix.trans (List.drop_suffix _ _).isInfix
  · show parseOptionValue _ _ _ = parseOptionValue _ _ _
    apply congrArg
    apply Buffer.ext_get
    intro k hk
    rw [Buffer.get_tabulate, if_pos hk]
    show (if k < (raw.get (i + 1)).toNat then raw.get (i + 2 + k) else 0) = _
    split
    · rename_i hin
      have hin' : k < ((raw.data.drop (i + 2)).take (raw.get (i + 1)).toNat).length := by
        rwa [hlength]
      have hk' : 0 + k < optionMaxLenght := by rwa [Nat.zero_add]
      have hget := Buffer.get_write_in (Buffer.zero optionMaxLenght) hin' hk'
      rw [Nat.zero_add] at hget
      rw [hget, ← Buffer.getD_data raw, List.getD_eq_getElem?_getD, List.getD_eq_getElem?_getD,
        List.getElem?_take_of_lt hin, List.getElem?_drop]
    · rename_i hout
      rw [Buffer.get_write_out _ (.inr (by rw [hlength]; omega)), Buffer.get_zero]

/-- What one pass stores besides the options it has found stored. -/
theorem parseBody_stores {s s' : ParseState} (h : parseBody raw s = .next s') {o : DhcpOption}
    (ho : o ∈ s'.dest) :
    o ∈ s.dest ∨ (takesOption raw s.i = true ∧ o = optionAt raw s.i) := by
  obtain ⟨hi, ⟨-, rfl⟩ | ⟨hpad, hend, rfl⟩⟩ := parseBody_next h
  · exact .inl ho
  · exact (mem_dhcpOptionAdd ho).imp id fun heq => ⟨takesOption_iff.mpr ⟨hi, hpad, hend⟩, heq⟩

theorem stored_fits (hfit : OptionsFit raw) {s : ParseState}
    (h : Loop.Visits (parseBody raw) parseEntry s) :
    ∀ o ∈ s.dest, o.lenght.toNat ≤ optionMaxLenght ∧ ValueInside raw o := by
  induction h with
  | entry => simp [parseEntry]
  | @pass s s' hs hb ih =>
    intro o ho
    rcases parseBody_stores hb ho with ho | ⟨ht, rfl⟩
    · exact ih o ho
    · have hfits := hfit s.i (visits_position hs) ht
      exact ⟨hfits.1, valueInside_optionAt (overrunAt_eq_false.mpr hfits)⟩

end Bounds

/-- The scan keeps its bounds exactly when every option that it reaches fits. -/
theorem optionScan_in_bounds_iff (raw : Buffer optionsFieldSize) :
    ScansInBounds raw ↔ OptionsFit raw := by
  constructor
  · intro h i hpos ht
    obtain ⟨s, hs, rfl⟩ := position_visited hpos
    rw [← overrunAt_eq_false, ← Bool.not_eq_true]
    intro hover
    have hnone := h.rejects s hs hover
    rw [bytesCopied, if_pos ht, List.range_eq_nil] at hnone
    -- an option without a value fits
    have hi := (takesOption_iff.mp ht).1
    have hfalse : overrunAt raw s.i = false := by
      rw [overrunAt_eq_false, hnone]
      exact ⟨by decide, by simp only [packetOptionsSize] at hi; simp only [optionsFieldSize]; omega⟩
    rw [hover] at hfalse
    cases hfalse
  · intro h
    have hfits : ∀ s, Loop.Visits (parseBody raw) parseEntry s → takesOption raw s.i = true →
        overrunAt raw s.i = false := fun s hs ht =>
      overrunAt_eq_false.mpr (h s.i (visits_position hs) ht)
    refine ⟨fun s hs => bytesRead_inside (hfits s hs), ?_, fun s hs => stored_fits h hs⟩
    intro s hs hover
    cases ht : takesOption raw s.i with
    | true =>
      rw [hfits s hs ht] at hover
      cases hover
    | false => simp [bytesCopied, ht]

/-- A client identifier whose length byte says 255. -/
def overlongOptions : Buffer optionsFieldSize :=
  (Buffer.zero optionsFieldSize).write 0 [61, 255]

/-- Two bytes of this value are written behind the value buffer. -/
theorem optionScan_overflows_valueBuf :
    ¬ScansInBounds overlongOptions ∧
      ∃ k ∈ bytesCopied overlongOptions 0, optionMaxLenght < k := by
  constructor
  · intro h
    have hnone := h.rejects parseEntry .entry (by decide +kernel)
    have hcopied : bytesCopied overlongOptions 0 ≠ [] := by decide +kernel
    exact hcopied hnone
  · exact ⟨254, by decide +kernel, by decide⟩

end DHCPServer
