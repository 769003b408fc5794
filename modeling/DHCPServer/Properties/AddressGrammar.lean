import DHCPServer.Utils.Xtoy

namespace DHCPServer

/-- Four decimal octets, each at most 255, with dots between them, and the address they denote. -/
def DottedQuad (s : CString) (a : UInt32) : Prop :=
  ∃ w x y z : CString, s = w ++ '.' :: (x ++ '.' :: (y ++ '.' :: z)) ∧
    (∀ octet ∈ [w, x, y, z], octet ≠ [] ∧ (∀ c ∈ octet, c.isDigit = true) ∧
      Nat.ofDigitChars 10 octet 0 ≤ 255) ∧
    a.toNat = Nat.ofDigitChars 10 w 0 * 2 ^ 24 + Nat.ofDigitChars 10 x 0 * 2 ^ 16 +
      Nat.ofDigitChars 10 y 0 * 2 ^ 8 + Nat.ofDigitChars 10 z 0

/-- A dotted quad is read as the address it denotes, other text as 0. -/
def AddressDecided (s : CString) : Prop :=
  (∀ a, DottedQuad s a → ipv4AddressToUint32 s = a) ∧
    ((∀ a, ¬DottedQuad s a) → ipv4AddressToUint32 s = 0)

/-- The text starts with four `%u` fields with dots between them. -/
def StartsWithFields (s : CString) (w x y z : UInt32) : Prop :=
  ∃ tw tx ty tz rest, UnsignedField tw w ∧ UnsignedField tx x ∧ UnsignedField ty y ∧
    UnsignedField tz z ∧ NoDigit rest ∧
    s = tw ++ '.' :: (tx ++ '.' :: (ty ++ '.' :: (tz ++ rest)))

section Quad

variable {s : CString} {w x y z : UInt32}

theorem scanQuad_iff : scanQuad s = some (w, x, y, z) ↔ StartsWithFields s w x y z := by
  simp only [scanQuad, bind, pure, Option.bind_eq_some_iff, scanUnsigned_iff, scanChar_eq_some,
    Option.some.injEq, Prod.exists, Prod.mk.injEq]
  constructor
  · rintro ⟨w', _, ⟨tw, htw, -, rfl⟩, _, rfl, x', _, ⟨tx, htx, -, rfl⟩, _, rfl, y', _,
      ⟨ty, hty, -, rfl⟩, _, rfl, z', rest, ⟨tz, htz, hrest, rfl⟩, rfl, rfl, rfl, rfl⟩
    exact ⟨tw, tx, ty, tz, rest, htw, htx, hty, htz, hrest, rfl⟩
  · rintro ⟨tw, tx, ty, tz, rest, htw, htx, hty, htz, hrest, rfl⟩
    exact ⟨w, _, ⟨tw, htw, noDigit_dot, rfl⟩, _, rfl, x, _, ⟨tx, htx, noDigit_dot, rfl⟩, _, rfl, y,
      _, ⟨ty, hty, noDigit_dot, rfl⟩, _, rfl, z, rest, ⟨tz, htz, hrest, rfl⟩, rfl, rfl, rfl, rfl⟩

/-- An octet is a field. -/
theorem octet_field {octet : CString} (hne : octet ≠ [])
    (hdigits : ∀ c ∈ octet, c.isDigit = true) (hle : Nat.ofDigitChars 10 octet 0 ≤ 255) :
    UnsignedField octet (UInt32.ofNat (Nat.ofDigitChars 10 octet 0)) := by
  have hfield : UnsignedField octet (unsignedValue false octet) :=
    @UnsignedField.mk [] [] octet (by simp) (.inl rfl) hne hdigits
  have hvalue : unsignedValue false octet = UInt32.ofNat (Nat.ofDigitChars 10 octet 0) := by
    rw [unsignedValue, if_neg (by omega)]
    rfl
  rwa [hvalue] at hfield

/-- The numbers read from a dotted quad are its octets. -/
theorem DottedQuad.scanQuad {a : UInt32} (h : DottedQuad s a) :
    ∃ w x y z, scanQuad s = some (w, x, y, z) ∧
      (w.toNat < 256 ∧ x.toNat < 256 ∧ y.toNat < 256 ∧ z.toNat < 256) ∧
      a.toNat = w.toNat * 2 ^ 24 + x.toNat * 2 ^ 16 + y.toNat * 2 ^ 8 + z.toNat := by
  obtain ⟨tw, tx, ty, tz, rfl, hoctets, ha⟩ := h
  simp only [List.forall_mem_cons] at hoctets
  obtain ⟨⟨hw, hwd, hwle⟩, ⟨hx, hxd, hxle⟩, ⟨hy, hyd, hyle⟩, ⟨hz, hzd, hzle⟩, -⟩ := hoctets
  have hquad := scanQuad_iff.mpr ⟨tw, tx, ty, tz, [], octet_field hw hwd hwle,
    octet_field hx hxd hxle, octet_field hy hyd hyle, octet_field hz hzd hzle, noDigit_nil, rfl⟩
  rw [List.append_nil] at hquad
  have hnat {n : Nat} (h : n ≤ 255) : (UInt32.ofNat n).toNat = n := by
    rw [UInt32.toNat_ofNat']
    omega
  refine ⟨_, _, _, _, hquad, ?_, ?_⟩
  · rw [hnat hwle, hnat hxle, hnat hyle, hnat hzle]
    omega
  · rw [hnat hwle, hnat hxle, hnat hyle, hnat hzle, ha]

theorem ipv4AddressToUint32_quad {a : UInt32} (h : DottedQuad s a) :
    ipv4AddressToUint32 s = a := by
  obtain ⟨w, x, y, z, hquad, ⟨hw, hx, hy, hz⟩, ha⟩ := h.scanQuad
  rw [ipv4AddressToUint32, hquad]
  apply UInt32.toNat_inj.mp
  rw [toNat_quad hw hx hy hz, ha]

/-- The bits of the numbers are shifted out of 32 bits, all of them. -/
def ShiftedOut (w x y z : UInt32) : Prop :=
  w.toNat % 2 ^ 8 = 0 ∧ x.toNat % 2 ^ 16 = 0 ∧ y.toNat % 2 ^ 24 = 0 ∧ z = 0

theorem quad_eq_zero_iff :
    (w <<< 24) ||| (x <<< 16) ||| (y <<< 8) ||| z = 0 ↔ ShiftedOut w x y z := by
  have hshift (v k : UInt32) : v <<< k = 0 ↔ v.toNat * 2 ^ (k.toNat % 32) % 2 ^ 32 = 0 := by
    rw [← UInt32.toNat_inj, UInt32.toNat_shiftLeft, Nat.shiftLeft_eq]
    rfl
  have hw : w <<< 24 = 0 ↔ w.toNat % 2 ^ 8 = 0 := by
    apply (hshift w 24).trans
    simp only [UInt32.reduceToNat, Nat.reduceMod, Nat.reducePow]
    omega
  have hx : x <<< 16 = 0 ↔ x.toNat % 2 ^ 16 = 0 := by
    apply (hshift x 16).trans
    simp only [UInt32.reduceToNat, Nat.reduceMod, Nat.reducePow]
    omega
  have hy : y <<< 8 = 0 ↔ y.toNat % 2 ^ 24 = 0 := by
    apply (hshift y 8).trans
    simp only [UInt32.reduceToNat, Nat.reduceMod, Nat.reducePow]
    omega
  rw [UInt32.or_eq_zero_iff, UInt32.or_eq_zero_iff, UInt32.or_eq_zero_iff, hw, hx, hy, ShiftedOut,
    and_assoc, and_assoc]

/-- Text is read as the grammar of addresses says, unless it is no dotted quad and yet starts with
four numbers that leave a bit in the address. -/
theorem address_decided_iff (s : CString) :
    AddressDecided s ↔ (∃ a, DottedQuad s a) ∨
      ∀ w x y z, StartsWithFields s w x y z → ShiftedOut w x y z := by
  by_cases hquad : ∃ a, DottedQuad s a
  · simp only [hquad, true_or, iff_true]
    obtain ⟨a, ha⟩ := hquad
    exact ⟨fun a ha => ipv4AddressToUint32_quad ha, fun hno => absurd ha (hno a)⟩
  · have hno : ∀ a, ¬DottedQuad s a := fun a ha => hquad ⟨a, ha⟩
    have hzero : AddressDecided s ↔ ipv4AddressToUint32 s = 0 := by
      constructor
      · intro h
        exact h.2 hno
      · intro h
        exact ⟨fun a ha => absurd ha (hno a), fun _ => h⟩
    simp only [hzero, hquad, false_or, ← scanQuad_iff, ← quad_eq_zero_iff]
    rw [ipv4AddressToUint32]
    constructor
    · intro h w x y z hscan
      rwa [hscan] at h
    · intro h
      cases hscan : scanQuad s with
      | none => rfl
      | some p => exact h p.1 p.2.1 p.2.2.1 p.2.2.2 hscan

/-- An octet that is too large by one denotes another address, 192.168.1.0. -/
theorem address_octet_256 : ¬AddressDecided "192.168.1.256".toList := by
  have hscan : scanQuad "192.168.1.256".toList = some (192, 168, 1, 256) := by decide +kernel
  intro h
  have hzero := h.2 (by
    intro a ha
    obtain ⟨w, x, y, z, hquad, ⟨-, -, -, hz⟩, -⟩ := ha.scanQuad
    rw [hscan] at hquad
    obtain rfl : 256 = z := by simpa using congrArg (fun q => q.2.2.2) (Option.some.inj hquad)
    exact absurd hz (by decide))
  rw [ipv4AddressToUint32, hscan] at hzero
  exact absurd hzero (by decide)

end Quad

end DHCPServer
