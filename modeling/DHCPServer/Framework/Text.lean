import Mathlib.Data.List.Basic
import Mathlib.Tactic

namespace DHCPServer

/-- `isspace` in the C locale. -/
def isSpace (c : Char) : Bool := c == ' ' || ('\t' ≤ c && c ≤ '\r')

def skipSpace (s : List Char) : List Char := s.dropWhile isSpace

/-- An optional sign; `true` stands for a minus. -/
def scanSign : List Char → Bool × List Char
  | '-' :: s => (true, s)
  | '+' :: s => (false, s)
  | s => (false, s)

/-- The longest front of digits, and what follows it. -/
def scanDigits (s : List Char) : List Char × List Char := s.span Char.isDigit

/-- The conversion `%u` of `sscanf` into 32 bits: `strtoul` saturates at 64 bits and negates
behind a minus, the result is cut to 32 bits. `none` is a matching failure. -/
def scanUnsigned (s : List Char) : Option (UInt32 × List Char) :=
  let (negative, s) := scanSign (skipSpace s)
  match scanDigits s with
  | ([], _) => none
  | (ds, rest) =>
    let n := Nat.ofDigitChars 10 ds 0
    if 2 ^ 64 ≤ n then some (UInt32.ofNat (2 ^ 64 - 1), rest)
    else if negative then some (UInt32.ofNat (2 ^ 64 - n), rest)
    else some (UInt32.ofNat n, rest)

/-- A literal character of a `sscanf` format. -/
def scanChar (c : Char) : List Char → Option (List Char)
  | [] => none
  | d :: s => if d = c then some s else none

/-- The value of a hexadecimal digit of either case. -/
def hexValue (c : Char) : Option Nat :=
  if '0' ≤ c ∧ c ≤ '9' then some (c.toNat - '0'.toNat)
  else if 'a' ≤ c ∧ c ≤ 'f' then some (c.toNat - 'a'.toNat + 10)
  else if 'A' ≤ c ∧ c ≤ 'F' then some (c.toNat - 'A'.toNat + 10)
  else none

/-- At most `width` hexadecimal digits, added to the number read so far. -/
def scanHexDigits : Nat → Nat → List Char → Nat × List Char
  | 0, n, s => (n, s)
  | _ + 1, n, [] => (n, [])
  | width + 1, n, c :: s =>
    match hexValue c with
    | none => (n, c :: s)
    | some d => scanHexDigits width (16 * n + d) s

/-- The digits of a `%x` field of at most `width` characters, after an optional `0x`. The zero of
the prefix counts as a digit. -/
def scanHexField : Nat → List Char → Option (Nat × List Char)
  | width + 2, '0' :: 'x' :: s => some (scanHexDigits width 0 s)
  | width + 2, '0' :: 'X' :: s => some (scanHexDigits width 0 s)
  | width + 1, c :: s => (hexValue c).map fun d => scanHexDigits width d s
  | _, _ => none

/-- The conversion `%x` of `sscanf` with a field width, which a sign is part of. -/
def scanHex (width : Nat) (s : List Char) : Option (Int × List Char) :=
  match width, skipSpace s with
  | width + 1, '-' :: s => (scanHexField width s).map fun r => (-(r.1 : Int), r.2)
  | width + 1, '+' :: s => (scanHexField width s).map fun r => ((r.1 : Int), r.2)
  | width, s => (scanHexField width s).map fun r => ((r.1 : Int), r.2)

/-- `printf` of a number with exactly `width` lower-case hexadecimal digits. -/
def hexText : Nat → Nat → List Char
  | 0, _ => []
  | width + 1, n => hexText width (n / 16) ++ [Nat.digitChar (n % 16)]

/-- `printf` with a zero and a field width before `x`: at least `width` digits. -/
def hexPadded (width n : Nat) : List Char :=
  if n < 16 ^ width then hexText width n else Nat.toDigits 16 n

/-- The bytes of ASCII text. -/
def asciiBytes (s : List Char) : List UInt8 := s.map fun c => UInt8.ofNat c.toNat

/-- The text in an array of `char`, up to its terminating NUL. -/
def bufferText (bytes : List UInt8) : List Char :=
  (bytes.takeWhile fun b => b != 0).map fun b => Char.ofNat b.toNat

/-- `printf` with `%u` and `%d` of a number that is not negative. -/
def decimal (n : Nat) : List Char := Nat.toDigits 10 n

/-- The number `%u` stores for digits, behind a minus or not. -/
def unsignedValue (negative : Bool) (ds : List Char) : UInt32 :=
  let n := Nat.ofDigitChars 10 ds 0
  if 2 ^ 64 ≤ n then UInt32.ofNat (2 ^ 64 - 1)
  else if negative then UInt32.ofNat (2 ^ 64 - n)
  else UInt32.ofNat n

/-- The text of a `%u` field with the number that is stored for it: white space, a sign or none, and
digits. -/
inductive UnsignedField : List Char → UInt32 → Prop
  | mk {blanks sign ds} (hblanks : ∀ c ∈ blanks, isSpace c = true)
      (hsign : sign = [] ∨ sign = ['+'] ∨ sign = ['-']) (hne : ds ≠ [])
      (hdigits : ∀ c ∈ ds, c.isDigit = true) :
      UnsignedField (blanks ++ (sign ++ ds)) (unsignedValue (sign == ['-']) ds)

/-- The text does not go on with a digit. -/
def NoDigit (s : List Char) : Prop := ∀ c ∈ s.head?, c.isDigit = false

section Decimal

variable {n : Nat} {rest : List Char}

theorem isDigit_bounds {c : Char} (h : c.isDigit = true) : 48 ≤ c.toNat ∧ c.toNat ≤ 57 := by
  simp only [Char.isDigit, Bool.and_eq_true, decide_eq_true_eq] at h
  exact ⟨h.1, h.2⟩

theorem not_isSpace_of_toNat {c : Char} (h : 32 < c.toNat) : isSpace c = false := by
  have hle : ¬c ≤ '\r' := by
    intro hc
    have : c.toNat ≤ 13 := hc
    omega
  have hne : c ≠ ' ' := by
    intro hc
    rw [hc] at h
    exact absurd h (by decide)
  simp [isSpace, hle, hne]

theorem skipSpace_cons {c : Char} (h : 32 < c.toNat) : skipSpace (c :: rest) = c :: rest := by
  rw [skipSpace, List.dropWhile_cons, not_isSpace_of_toNat h]
  rfl

/-- The digits of a number start with a digit. -/
theorem decimal_cons (n : Nat) : ∃ c s, decimal n = c :: s ∧ c.isDigit = true := by
  cases h : decimal n with
  | nil => exact absurd h Nat.toDigits_ne_nil
  | cons c s =>
    refine ⟨c, s, rfl, Nat.isDigit_of_mem_toDigits (b := 10) (n := n) (by decide) le_rfl ?_⟩
    rw [← decimal, h]
    exact List.mem_cons_self

theorem scanDigits_append {ds : List Char} (hd : ∀ c ∈ ds, c.isDigit = true) (hr : NoDigit rest) :
    scanDigits (ds ++ rest) = (ds, rest) := by
  unfold scanDigits
  rw [List.span_eq_takeWhile_dropWhile, List.takeWhile_append_of_pos hd,
    List.dropWhile_append_of_pos hd]
  cases rest with
  | nil => simp
  | cons c s =>
    have hc : c.isDigit = false := hr c rfl
    simp [hc]

theorem scanDigits_decimal (h : NoDigit rest) :
    scanDigits (decimal n ++ rest) = (decimal n, rest) :=
  scanDigits_append (fun _ hc => Nat.isDigit_of_mem_toDigits (by decide) le_rfl hc) h

theorem scanSign_decimal (n : Nat) (rest : List Char) :
    scanSign (decimal n ++ rest) = (false, decimal n ++ rest) := by
  obtain ⟨c, s, hcs, hc⟩ := decimal_cons n
  have hb := isDigit_bounds hc
  have hm : c ≠ '-' := by
    intro h
    rw [h] at hb
    exact absurd hb.1 (by decide)
  have hp : c ≠ '+' := by
    intro h
    rw [h] at hb
    exact absurd hb.1 (by decide)
  rw [hcs]
  simp only [List.cons_append, scanSign]
  split
  · rename_i heq
    exact absurd (List.cons.inj heq).1 hm
  · rename_i heq
    exact absurd (List.cons.inj heq).1 hp
  · rfl

theorem ofDigitChars_decimal (n : Nat) : Nat.ofDigitChars 10 (decimal n) 0 = n :=
  Nat.ofDigitChars_toDigits (by decide) le_rfl

/-- A number that was printed in decimal is read back. -/
theorem scanUnsigned_decimal (hn : n < 2 ^ 32) (h : NoDigit rest) :
    scanUnsigned (decimal n ++ rest) = some (UInt32.ofNat n, rest) := by
  obtain ⟨c, s, hcs, hc⟩ := decimal_cons n
  have hb := isDigit_bounds hc
  have hskip : skipSpace (decimal n ++ rest) = decimal n ++ rest := by
    rw [hcs]
    exact skipSpace_cons (by omega)
  have hvalue := ofDigitChars_decimal n
  have hsmall : ¬2 ^ 64 ≤ n := by omega
  simp only [scanUnsigned, hskip, scanSign_decimal, scanDigits_decimal h]
  cases hd : decimal n with
  | nil => exact absurd hd Nat.toDigits_ne_nil
  | cons c s =>
    rw [hd] at hvalue
    simp only [hvalue]
    rw [if_neg hsmall]
    rfl

end Decimal

section Fields

variable {s rest blanks sign ds : List Char} {n : UInt32}

theorem noDigit_dropWhile (s : List Char) : NoDigit (s.dropWhile Char.isDigit) := by
  intro c hc
  have hhead := List.head?_dropWhile_not Char.isDigit s
  rw [Option.mem_def.mp hc] at hhead
  simpa using hhead

theorem scanDigits_eq (s : List Char) :
    (scanDigits s).1 ++ (scanDigits s).2 = s ∧ (∀ c ∈ (scanDigits s).1, c.isDigit = true) ∧
      NoDigit (scanDigits s).2 := by
  rw [scanDigits, List.span_eq_takeWhile_dropWhile]
  refine ⟨List.takeWhile_append_dropWhile, ?_, noDigit_dropWhile s⟩
  exact List.all_eq_true.mp List.all_takeWhile

theorem scanSign_eq (s : List Char) :
    ∃ sign, s = sign ++ (scanSign s).2 ∧ (sign = [] ∨ sign = ['+'] ∨ sign = ['-']) ∧
      (scanSign s).1 = (sign == ['-']) := by
  unfold scanSign
  split
  · exact ⟨['-'], rfl, by simp, rfl⟩
  · exact ⟨['+'], rfl, by simp, rfl⟩
  · exact ⟨[], rfl, by simp, rfl⟩

/-- Behind a sign, or none, that a digit follows the scan goes on with the digits. -/
theorem scanSign_append (hsign : sign = [] ∨ sign = ['+'] ∨ sign = ['-']) (hne : ds ≠ [])
    (hdigits : ∀ c ∈ ds, c.isDigit = true) :
    scanSign (sign ++ (ds ++ rest)) = (sign == ['-'], ds ++ rest) := by
  rcases hsign with rfl | rfl | rfl
  · cases ds with
    | nil => exact absurd rfl hne
    | cons c ds =>
      have hc := hdigits c (by simp)
      have hm : c ≠ '-' := by
        rintro rfl
        exact absurd hc (by decide)
      have hp : c ≠ '+' := by
        rintro rfl
        exact absurd hc (by decide)
      simp [scanSign, hm, hp]
  · rfl
  · rfl

theorem skipSpace_append (hblanks : ∀ c ∈ blanks, isSpace c = true)
    (hhead : ∀ c ∈ s.head?, 32 < c.toNat) : skipSpace (blanks ++ s) = s := by
  rw [skipSpace, List.dropWhile_append_of_pos hblanks]
  cases s with
  | nil => rfl
  | cons c s => exact skipSpace_cons (hhead c rfl)

theorem scanUnsigned_digits {digits : List Char} (hne : digits ≠ [])
    (h : scanDigits (scanSign (skipSpace s)).2 = (digits, rest)) :
    scanUnsigned s = some (unsignedValue (scanSign (skipSpace s)).1 digits, rest) := by
  cases digits with
  | nil => exact absurd rfl hne
  | cons c t =>
    simp only [scanUnsigned, h, unsignedValue]
    split
    · rfl
    · split <;> rfl

theorem scanUnsigned_none (h : (scanDigits (scanSign (skipSpace s)).2).1 = []) :
    scanUnsigned s = none := by
  unfold scanUnsigned
  dsimp only
  generalize scanDigits (scanSign (skipSpace s)).2 = p at h
  obtain ⟨digits, rest'⟩ := p
  obtain rfl : digits = [] := h
  rfl

/-- The number of a field that is followed by no digit is read. -/
theorem UnsignedField.scan {t : List Char} (ht : UnsignedField t n) (hrest : NoDigit rest) :
    scanUnsigned (t ++ rest) = some (n, rest) := by
  cases ht with
  | @mk blanks sign ds hblanks hsign hne hdigits =>
    have hhead : ∀ c ∈ (sign ++ (ds ++ rest)).head?, 32 < c.toNat := by
      rcases hsign with rfl | rfl | rfl
      · cases ds with
        | nil => exact absurd rfl hne
        | cons c ds =>
          intro c' hc'
          obtain rfl : c = c' := by simpa using hc'
          have hb := isDigit_bounds (hdigits c (by simp))
          omega
      · simp
      · simp
    have hskip : skipSpace (blanks ++ (sign ++ ds) ++ rest) = sign ++ (ds ++ rest) := by
      rw [List.append_assoc, List.append_assoc, skipSpace_append hblanks hhead]
    have hscan : scanSign (sign ++ (ds ++ rest)) = (sign == ['-'], ds ++ rest) :=
      scanSign_append hsign hne hdigits
    have hread : scanDigits (scanSign (skipSpace (blanks ++ (sign ++ ds) ++ rest))).2 =
        (ds, rest) := by
      rw [hskip, hscan]
      exact scanDigits_append hdigits hrest
    rw [scanUnsigned_digits hne hread, hskip, hscan]

/-- A `%u` conversion reads the longest field the text starts with. -/
theorem scanUnsigned_iff :
    scanUnsigned s = some (n, rest) ↔ ∃ t, UnsignedField t n ∧ NoDigit rest ∧ s = t ++ rest := by
  constructor
  · intro h
    obtain ⟨hspan, hdigits, hrest⟩ := scanDigits_eq (scanSign (skipSpace s)).2
    obtain ⟨sign, hs, hsign, hnegative⟩ := scanSign_eq (skipSpace s)
    have hblanks : s.takeWhile isSpace ++ skipSpace s = s := List.takeWhile_append_dropWhile
    have hne : (scanDigits (scanSign (skipSpace s)).2).1 ≠ [] := by
      intro hnil
      rw [scanUnsigned_none hnil] at h
      cases h
    rw [scanUnsigned_digits hne Prod.mk.eta.symm, hnegative] at h
    obtain ⟨rfl, rfl⟩ := Prod.mk.inj (Option.some.inj h)
    refine ⟨s.takeWhile isSpace ++ (sign ++ (scanDigits (scanSign (skipSpace s)).2).1),
      .mk (List.all_eq_true.mp List.all_takeWhile) hsign hne hdigits, hrest, ?_⟩
    rw [List.append_assoc, List.append_assoc, hspan, ← hs, hblanks]
  · rintro ⟨t, ht, hrest, rfl⟩
    exact ht.scan hrest

theorem scanChar_eq_some {c : Char} {rest : List Char} :
    scanChar c s = some rest ↔ s = c :: rest := by
  cases s with
  | nil => simp [scanChar]
  | cons d s =>
    by_cases hd : d = c
    · simp [scanChar, hd]
    · simp [scanChar, hd]

end Fields

section Hex

variable {width n d : Nat} {rest s : List Char}

theorem hexValue_digitChar (h : d < 16) : hexValue (Nat.digitChar d) = some d := by
  revert d
  decide

theorem digitChar_toNat_bounds (h : d < 16) :
    48 ≤ (Nat.digitChar d).toNat ∧ (Nat.digitChar d).toNat ≤ 102 := by
  revert d
  decide

theorem digitChar_ne_x (h : d < 16) : Nat.digitChar d ≠ 'x' ∧ Nat.digitChar d ≠ 'X' := by
  revert d
  decide

theorem length_hexText (width n : Nat) : (hexText width n).length = width := by
  induction width generalizing n with
  | zero => rfl
  | succ width ih => simp [hexText, ih]

/-- The digits of a number extend the number read before them. -/
theorem scanHexDigits_append (k m n : Nat) :
    scanHexDigits (width + k) m (hexText width n ++ s) =
      scanHexDigits k (16 ^ width * m + n % 16 ^ width) s := by
  -- the digits are made from the back and read from the front
  induction width generalizing n s k with
  | zero => simp [hexText, Nat.mod_one]
  | succ width ih =>
    have hlast : n % 16 < 16 := Nat.mod_lt _ (by decide)
    have hstep : scanHexDigits (k + 1) (16 ^ width * m + n / 16 % 16 ^ width)
        (Nat.digitChar (n % 16) :: s) =
          scanHexDigits k (16 * (16 ^ width * m + n / 16 % 16 ^ width) + n % 16) s := by
      rw [scanHexDigits, hexValue_digitChar hlast]
    have hmod : n % 16 ^ (width + 1) = 16 * (n / 16 % 16 ^ width) + n % 16 := by
      rw [pow_succ, Nat.mul_comm, Nat.mod_mul]
      omega
    rw [hexText, List.append_assoc, List.singleton_append, Nat.add_right_comm, Nat.add_assoc,
      ih (k + 1), hstep, hmod]
    congr 1
    ring

theorem mem_hexText {c : Char} (h : c ∈ hexText width n) : ∃ d < 16, c = Nat.digitChar d := by
  induction width generalizing n with
  | zero => cases h
  | succ width ih =>
    rw [hexText, List.mem_append, List.mem_singleton] at h
    rcases h with h | h
    · exact ih h
    · exact ⟨n % 16, Nat.mod_lt _ (by decide), h⟩

/-- A digit that no `x` follows is read as the first one of its field. -/
theorem scanHexField_digit {c : Char} (hc : hexValue c = some d)
    (hx : width = 0 ∨ ∀ c' ∈ s.head?, c' ≠ 'x' ∧ c' ≠ 'X') :
    scanHexField (width + 1) (c :: s) = some (scanHexDigits width d s) := by
  unfold scanHexField
  split
  · rename_i w t hw hs
    obtain ⟨-, rfl⟩ := List.cons.inj hs
    rcases hx with hx | hx
    · omega
    · exact absurd rfl (hx 'x' rfl).1
  · rename_i w t hw hs
    obtain ⟨-, rfl⟩ := List.cons.inj hs
    rcases hx with hx | hx
    · omega
    · exact absurd rfl (hx 'X' rfl).2
  · rename_i w c' t _ _ hw hs
    obtain ⟨rfl, rfl⟩ := List.cons.inj hs
    obtain rfl : width = w := by omega
    rw [hc]
    rfl
  · rename_i hno
    exact absurd rfl (hno width c s rfl)

/-- Digits of a fixed width are read back through a field of that width. -/
theorem scanHex_hexText (hw : 0 < width) (hn : n < 16 ^ width) :
    scanHex width (hexText width n ++ rest) = some ((n : Int), rest) := by
  obtain ⟨w, rfl⟩ : ∃ w, width = w + 1 := ⟨width - 1, by omega⟩
  have hlen := length_hexText (w + 1) n
  have hall : ∀ c ∈ hexText (w + 1) n, ∃ d < 16, c = Nat.digitChar d :=
    fun c hc => mem_hexText hc
  have hread : scanHexDigits (w + 1 + 0) 0 (hexText (w + 1) n ++ rest) =
      scanHexDigits 0 (16 ^ (w + 1) * 0 + n % 16 ^ (w + 1)) rest := scanHexDigits_append 0 0 n
  generalize hexText (w + 1) n = ds at hlen hall hread
  cases ds with
  | nil => cases hlen
  | cons c t =>
    obtain ⟨d, hd, rfl⟩ := hall c (by simp)
    have hb := digitChar_toNat_bounds hd
    have hvalue := hexValue_digitChar hd
    have hfield : scanHexField (w + 1) (Nat.digitChar d :: (t ++ rest)) =
        some (scanHexDigits w d (t ++ rest)) := by
      apply scanHexField_digit hvalue
      cases t with
      | nil =>
        left
        simpa using hlen.symm
      | cons c' t' =>
        right
        intro x hx
        obtain rfl : c' = x := by simpa using hx
        obtain ⟨d', hd', rfl⟩ := hall c' (by simp)
        exact digitChar_ne_x hd'
    have hdigits : scanHexDigits w d (t ++ rest) = (n, rest) := by
      have hfirst : scanHexDigits (w + 1) 0 (Nat.digitChar d :: (t ++ rest)) =
          scanHexDigits w (16 * 0 + d) (t ++ rest) := by
        rw [scanHexDigits, hvalue]
      rw [Nat.add_zero, List.cons_append, hfirst] at hread
      simpa [Nat.mod_eq_of_lt hn, scanHexDigits] using hread
    have hskip : skipSpace (Nat.digitChar d :: (t ++ rest)) = Nat.digitChar d :: (t ++ rest) :=
      skipSpace_cons (by omega)
    unfold scanHex
    rw [List.cons_append, hskip]
    split
    · rename_i hs
      have hm := (List.cons.inj hs).1
      rw [hm] at hb
      exact absurd hb.1 (by decide)
    · rename_i hs
      have hp := (List.cons.inj hs).1
      rw [hp] at hb
      exact absurd hb.1 (by decide)
    · rw [hfield, hdigits]
      rfl

/-- Numbers that fit the width are told apart by their digits. -/
theorem hexText_inj {m : Nat} (hw : 0 < width) (hn : n < 16 ^ width) (hm : m < 16 ^ width)
    (h : hexText width n = hexText width m) : n = m := by
  have hread : scanHex width (hexText width n ++ []) = some ((n : Int), []) :=
    scanHex_hexText hw hn
  rw [h, scanHex_hexText hw hm] at hread
  simpa using hread.symm

end Hex

section Ascii

variable {s : List Char} {rest : List UInt8}

/-- Text without NUL reads back from the array it was put into. -/
theorem bufferText_asciiBytes (h : ∀ c ∈ s, 0 < c.toNat ∧ c.toNat < 128) :
    bufferText (asciiBytes s ++ 0 :: rest) = s := by
  unfold bufferText asciiBytes
  induction s with
  | nil => simp
  | cons c s ih =>
    obtain ⟨hpos, hlt⟩ := h c List.mem_cons_self
    have hnat : (UInt8.ofNat c.toNat).toNat = c.toNat := by
      rw [UInt8.toNat_ofNat']
      omega
    have hne : (UInt8.ofNat c.toNat != 0) = true := by
      rw [bne_iff_ne]
      intro hzero
      rw [hzero] at hnat
      exact absurd hnat.symm (Nat.ne_of_gt hpos)
    have hrest := ih fun c hc => h c (List.mem_cons_of_mem _ hc)
    simp only [List.map_cons, List.cons_append, List.takeWhile_cons, hne, if_true, hrest, hnat,
      Char.ofNat_toNat]

/-- Hexadecimal digits are ASCII. -/
theorem ascii_hexText {width n : Nat} {c : Char} (h : c ∈ hexText width n) :
    0 < c.toNat ∧ c.toNat < 128 := by
  obtain ⟨d, hd, rfl⟩ := mem_hexText h
  have hb := digitChar_toNat_bounds hd
  omega

end Ascii

end DHCPServer
