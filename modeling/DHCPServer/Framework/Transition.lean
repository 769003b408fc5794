import Mathlib.Tactic

namespace DHCPServer

variable {σ ε φ : Type*}

/-- The states a machine can be in after finitely many steps that all succeed, each of them
on an event that meets `ok` in the state before it. -/
inductive Reachable (step : σ → ε → Except φ σ) (ok : σ → ε → Prop) (init : σ → Prop) : σ → Prop
  | start {s : σ} : init s → Reachable step ok init s
  | next {s s' : σ} (e : ε) :
      Reachable step ok init s → ok s e → step s e = .ok s' → Reachable step ok init s'

namespace Reachable

variable {step : σ → ε → Except φ σ} {ok ok' : σ → ε → Prop} {init : σ → Prop}

/-- Invariant rule: what holds at the start and is kept by each step holds in every run. -/
theorem invariant {P : σ → Prop} {s : σ} (h : Reachable step ok init s)
    (h₀ : ∀ s, init s → P s)
    (hs : ∀ s e s', P s → ok s e → step s e = .ok s' → P s') : P s := by
  induction h with
  | start hi => exact h₀ _ hi
  | next e _ hok hst ih => exact hs _ e _ ih hok hst

/-- A run under the stronger condition is a run under the weaker one. -/
theorem mono {s : σ} (h : Reachable step ok init s) (hw : ∀ s e, ok s e → ok' s e) :
    Reachable step ok' init s := by
  induction h with
  | start hi => exact .start hi
  | next e _ hok hst ih => exact .next e ih (hw _ e hok) hst

/-- A list of events run to its end reaches its last state. -/
theorem of_foldlM (hok : ∀ s e, ok s e) {es : List ε} {s s' : σ}
    (h : Reachable step ok init s) (hr : es.foldlM step s = .ok s') :
    Reachable step ok init s' := by
  induction es generalizing s with
  | nil =>
    cases hr
    exact h
  | cons e es ih =>
    rw [List.foldlM_cons] at hr
    cases hst : step s e with
    | error f =>
      rw [hst] at hr
      cases hr
    | ok s₁ =>
      rw [hst] at hr
      exact ih (h.next e (hok s e) hst) hr

/-- A step that is taken only on events that pass a test. -/
def checked (step : σ → ε → Except φ σ) (test : σ → ε → Bool) (s : σ) (e : ε) : Option σ :=
  if test s e then (step s e).toOption else none

/-- A list of events run to its end through passed tests reaches its last state. -/
theorem of_checked {test : σ → ε → Bool} (hok : ∀ s e, test s e = true → ok s e) (es : List ε)
    {s s' : σ} (h : Reachable step ok init s) (hr : es.foldlM (checked step test) s = some s') :
    Reachable step ok init s' := by
  induction es generalizing s with
  | nil =>
    have he : s = s' := by simpa using hr
    exact he ▸ h
  | cons e es ih =>
    rw [List.foldlM_cons] at hr
    obtain ⟨s₁, hst, hr⟩ := Option.bind_eq_some_iff.mp hr
    unfold checked at hst
    split at hst
    · rename_i ht
      cases hs : step s e with
      | error f =>
        rw [hs] at hst
        cases hst
      | ok s₂ =>
        rw [hs] at hst
        cases hst
        exact ih (h.next e (hok s e ht) hs) hr
    · cases hst

/-- A run whose last state satisfies `Q`, found by evaluation. -/
theorem of_run {test : σ → ε → Bool} (hok : ∀ s e, test s e = true → ok s e) (es : List ε)
    {s₀ : σ} (h₀ : init s₀) {Q : σ → Bool}
    (hr : (es.foldlM (checked step test) s₀).any Q = true) :
    ∃ s, Reachable step ok init s ∧ Q s = true := by
  obtain ⟨s, hrun, hQ⟩ := (Option.any_eq_true _ _).mp hr
  exact ⟨s, of_checked hok es (.start h₀) hrun, hQ⟩

end Reachable

end DHCPServer
