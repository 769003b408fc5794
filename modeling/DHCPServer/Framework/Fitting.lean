import Mathlib.Data.List.Basic
import Mathlib.Tactic

namespace DHCPServer

variable {α : Type*} (weight : α → Nat)

/-- The elements of a list taken from its front for as long as they fit into the room there is. -/
def fitting : Nat → List α → List α
  | _, [] => []
  | room, x :: xs => if weight x ≤ room then x :: fitting (room - weight x) xs else []

section Fitting

variable {weight} {room : Nat} {l p : List α}

theorem fitting_front (room : Nat) (l : List α) : fitting weight room l <+: l := by
  induction l generalizing room with
  | nil => exact List.prefix_rfl
  | cons x xs ih =>
    rw [fitting]
    by_cases hx : weight x ≤ room
    · rw [if_pos hx]
      exact (List.prefix_cons_inj x).mpr (ih (room - weight x))
    · rw [if_neg hx]
      exact List.nil_prefix

theorem fitting_fits (room : Nat) (l : List α) : ((fitting weight room l).map weight).sum ≤ room := by
  induction l generalizing room with
  | nil => simp [fitting]
  | cons x xs ih =>
    rw [fitting]
    by_cases hx : weight x ≤ room
    · have hrest := ih (room - weight x)
      simp only [if_pos hx, List.map_cons, List.sum_cons]
      omega
    · simp [if_neg hx]

/-- No longer part of the list from its front fits. -/
theorem fitting_longest (hp : p <+: l) (hfit : (p.map weight).sum ≤ room) :
    p <+: fitting weight room l := by
  induction l generalizing p room with
  | nil => simpa [fitting] using hp
  | cons x xs ih =>
    cases p with
    | nil => exact List.nil_prefix
    | cons y ys =>
      obtain ⟨rfl, hys⟩ := List.cons_prefix_cons.mp hp
      simp only [List.map_cons, List.sum_cons] at hfit
      rw [fitting, if_pos (by omega)]
      apply (List.prefix_cons_inj y).mpr
      apply ih hys
      omega

end Fitting

end DHCPServer
