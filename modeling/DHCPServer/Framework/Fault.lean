import Mathlib.Tactic

namespace DHCPServer

/-- Ways in which C code can end without a result: a NULL pointer is followed, memory outside
an object is accessed, or a loop is never left. -/
inductive Fault where
  | nullDeref
  | outOfBounds
  | diverges
  deriving DecidableEq, Repr

/-- Following a pointer that may be NULL. -/
def deref {α : Type} : Option α → Except Fault α
  | some a => .ok a
  | none => .error .nullDeref

/-- The fault a computation ends with, if any. -/
def faultOf {α : Type} : Except Fault α → Option Fault
  | .error f => some f
  | .ok _ => none

variable {ε α β : Type}

theorem toOption_eq_some {x : Except ε α} {a : α} : x.toOption = some a ↔ x = .ok a := by
  cases x <;> simp [Except.toOption]

/-- A result that passes a test, found by evaluation. -/
theorem exists_ok_of_any {x : Except ε α} {test : α → Bool} (h : x.toOption.any test = true) :
    ∃ a, x = .ok a ∧ test a = true := by
  obtain ⟨a, ha, htest⟩ := (Option.any_eq_true _ _).mp h
  exact ⟨a, toOption_eq_some.mp ha, htest⟩

theorem isOk_eq_true {x : Except ε α} : x.isOk = true ↔ ∃ a, x = .ok a := by
  cases x <;> simp [Except.isOk, Except.toBool]

theorem faultOf_eq_some {x : Except Fault α} {f : Fault} : faultOf x = some f ↔ x = .error f := by
  cases x <;> simp [faultOf]

/-- A sequence of two computations succeeds when both do. -/
theorem seq_ok {x : Except ε α} {k : α → Except ε β} {r : β} :
    x >>= k = .ok r ↔ ∃ y, x = .ok y ∧ k y = .ok r := by
  cases x <;> simp [bind, Except.bind]

/-- A result is mapped when there is one. -/
theorem map_ok {x : Except ε α} {f : α → β} {r : β} :
    x.map f = .ok r ↔ ∃ y, x = .ok y ∧ f y = r := by
  cases x <;> simp [Except.map]

theorem mapError_ok {ε' : Type} {x : Except ε α} {f : ε → ε'} {r : α} :
    x.mapError f = .ok r ↔ x = .ok r := by
  cases x <;> simp [Except.mapError]

/-- It has a result when the first one has one and the second one after it. -/
theorem exists_seq_ok {x : Except ε α} {k : α → Except ε β} :
    (∃ r, x >>= k = .ok r) ↔ ∃ y, x = .ok y ∧ ∃ r, k y = .ok r := by
  constructor
  · rintro ⟨r, h⟩
    obtain ⟨y, hy, hr⟩ := seq_ok.mp h
    exact ⟨y, hy, r, hr⟩
  · rintro ⟨y, hy, r, hr⟩
    exact ⟨r, seq_ok.mpr ⟨y, hy, hr⟩⟩

/-- It ends with a fault when the first one does, or the second one after it. -/
theorem seq_error {x : Except ε α} {k : α → Except ε β} {e : ε} :
    x >>= k = .error e ↔ x = .error e ∨ ∃ y, x = .ok y ∧ k y = .error e := by
  cases x <;> simp [bind, Except.bind]

@[simp] theorem deref_eq_ok {o : Option α} {a : α} : deref o = .ok a ↔ o = some a := by
  cases o <;> simp [deref]

@[simp] theorem deref_eq_error {o : Option α} {e : Fault} :
    deref o = .error e ↔ o = none ∧ e = .nullDeref := by
  cases o <;> simp [deref, eq_comm]

end DHCPServer
