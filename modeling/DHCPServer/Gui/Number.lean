import DHCPServer.Framework.Fault
import DHCPServer.Framework.Json
import DHCPServer.Utils.Xtoy

namespace DHCPServer

/-- Ways in which the GUI ends without a result: a function returns -1, a `std::string` is made
from a null pointer, or a standard exception is thrown that nothing catches. -/
inductive GuiError where
  | rejected
  | nullString
  | invalidArgument
  | outOfRange
  deriving DecidableEq, Repr

/-- Ways in which an action of a tab ends without a result: a standard exception is thrown, memory
is accessed that must not be, here or by the server, or no answer comes. -/
inductive ActionError where
  | thrown (e : GuiError)
  | fault (f : Fault)
  | waits
  deriving DecidableEq

/-- The range of an `int`. -/
abbrev InInt (n : Int) : Prop := -2 ^ 31 ≤ n ∧ n < 2 ^ 31

/-- Conversion to `int` as x86-64 does it, for numbers out of range and for NaN as well. -/
def numberToInt : Option Rat → Int
  | none => -2 ^ 31
  | some q => if InInt (truncate q) then truncate q else -2 ^ 31

/-- The nearest integer, of two that are equally near the even one. -/
def roundHalfEven (q : Rat) : Int :=
  if q - ⌊q⌋ < 1 / 2 then ⌊q⌋
  else if 1 / 2 < q - ⌊q⌋ then ⌊q⌋ + 1
  else if ⌊q⌋ % 2 = 0 then ⌊q⌋
  else ⌊q⌋ + 1

/-- A number written with `std::fixed` and no digits behind the point; a negative number that is
rounded to zero keeps its sign. -/
def fixedText : Option Rat → CString
  | none => "nan".toList
  | some q => (if q < 0 then ['-'] else []) ++ decimal (roundHalfEven q).natAbs

/-- A number that was read, if an `int` can hold it. -/
def checkInt (n : Int) : Except GuiError Int := if InInt n then .ok n else .error .outOfRange

/-- `std::stoi` -/
def stoi (s : CString) : Except GuiError Int :=
  let (negative, s) := scanSign (skipSpace s)
  match (scanDigits s).1 with
  | [] => .error .invalidArgument
  | d :: ds =>
    let n : Int := Nat.ofDigitChars 10 (d :: ds) 0
    checkInt (if negative then -n else n)

section Rounding

variable {q : Rat}

@[simp] theorem roundHalfEven_intCast (n : Int) : roundHalfEven (n : Rat) = n := by
  simp [roundHalfEven]

/-- The result is the integer below or the one above. -/
theorem roundHalfEven_floor (q : Rat) : roundHalfEven q = ⌊q⌋ ∨ roundHalfEven q = ⌊q⌋ + 1 := by
  unfold roundHalfEven
  split_ifs <;> simp

theorem roundHalfEven_nonneg (h : 0 ≤ q) : 0 ≤ roundHalfEven q := by
  have hfloor : 0 ≤ ⌊q⌋ := Int.floor_nonneg.mpr h
  rcases roundHalfEven_floor q with hq | hq <;> omega

theorem roundHalfEven_nonpos (h : q < 0) : roundHalfEven q ≤ 0 := by
  have hfloor : ⌊q⌋ < 0 := Int.floor_lt.mpr (by exact_mod_cast h)
  rcases roundHalfEven_floor q with hq | hq <;> omega

end Rounding

section Conversion

theorem checkInt_eq_ok {n k : Int} : checkInt n = .ok k ↔ n = k ∧ InInt k := by
  unfold checkInt
  split
  · rename_i h
    constructor
    · intro hk
      obtain rfl := Except.ok.inj hk
      exact ⟨rfl, h⟩
    · intro hk
      rw [hk.1]
  · rename_i h
    constructor
    · intro hk
      cases hk
    · intro hk
      exact absurd (hk.1 ▸ hk.2) h

theorem stoi_range {s : CString} {n : Int} (h : stoi s = .ok n) : InInt n := by
  unfold stoi at h
  split at h
  split at h
  · cases h
  · exact (checkInt_eq_ok.mp h).2

/-- Digits behind an optional minus are read as the number they stand for. -/
theorem stoi_digits (negative : Bool) (n : Nat) :
    stoi ((if negative then ['-'] else []) ++ decimal n) =
      checkInt (if negative then -(n : Int) else n) := by
  obtain ⟨c, s, hcs, hc⟩ := decimal_cons n
  have hb := isDigit_bounds hc
  have hskip : skipSpace ((if negative then ['-'] else []) ++ decimal n) =
      (if negative then ['-'] else []) ++ decimal n := by
    cases negative
    · rw [hcs]
      exact skipSpace_cons (by omega)
    · exact skipSpace_cons (by decide)
  have hsign : scanSign ((if negative then ['-'] else []) ++ decimal n) = (negative, decimal n) := by
    cases negative
    · simpa using scanSign_decimal n []
    · rfl
  have hdigits : scanDigits (decimal n) = (decimal n, []) := by
    have hread : scanDigits (decimal n ++ []) = (decimal n, []) :=
      scanDigits_decimal (by simp [NoDigit])
    rwa [List.append_nil] at hread
  have hvalue := ofDigitChars_decimal n
  unfold stoi
  simp only [hskip, hsign, hdigits]
  rw [hcs] at hvalue ⊢
  simp only [hvalue]

theorem stoi_decimal (n : Nat) : stoi (decimal n) = checkInt n := stoi_digits false n

/-- A number that was written without its fraction is read back rounded, if it fits. -/
theorem stoi_fixedText (q : Rat) : stoi (fixedText (some q)) = checkInt (roundHalfEven q) := by
  by_cases hq : q < 0
  · have habs : -((roundHalfEven q).natAbs : Int) = roundHalfEven q := by
      have hle := roundHalfEven_nonpos hq
      omega
    have hread := stoi_digits true (roundHalfEven q).natAbs
    simp only [if_true, habs] at hread
    rw [fixedText, if_pos hq, hread]
  · have habs : ((roundHalfEven q).natAbs : Int) = roundHalfEven q := by
      have hle := roundHalfEven_nonneg (not_lt.mp hq)
      omega
    have hread := stoi_digits false (roundHalfEven q).natAbs
    simp only [Bool.false_eq_true, if_false, habs] at hread
    rw [fixedText, if_neg hq, hread]

/-- What is not a number cannot be read back. -/
theorem stoi_nan : stoi (fixedText none) = .error .invalidArgument := by decide +kernel

end Conversion

end DHCPServer
