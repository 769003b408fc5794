import Mathlib.Tactic

namespace DHCPServer

/-- One pass through the body of a C loop: back to the loop head, or out with a result. -/
inductive Pass (σ ρ : Type*) where
  | next (s : σ)
  | done (r : ρ)

namespace Loop

variable {σ ρ : Type*} (body : σ → Pass σ ρ)

/-- At most `fuel` passes; `none` means that the loop has not been left by then. -/
def run : Nat → σ → Option ρ
  | 0, _ => none
  | fuel + 1, s =>
    match body s with
    | .next s' => run fuel s'
    | .done r => some r

/-- The states in which the loop head is met, in order, as far as the fuel goes. -/
def trace : Nat → σ → List σ
  | 0, _ => []
  | fuel + 1, s =>
    s :: match body s with
      | .next s' => trace fuel s'
      | .done _ => []

def Terminates (s : σ) : Prop := ∃ fuel, (run body fuel s).isSome

/-- The states in which the loop head is met when the loop is entered in `s₀`. -/
inductive Visits (s₀ : σ) : σ → Prop
  | entry : Visits s₀ s₀
  | pass {s s' : σ} : Visits s₀ s → body s = .next s' → Visits s₀ s'

variable {body}

theorem run_next {s s' : σ} (h : body s = .next s') (fuel : Nat) :
    run body (fuel + 1) s = run body fuel s' := by
  simp [run, h]

theorem run_done {s : σ} {r : ρ} (h : body s = .done r) (fuel : Nat) :
    run body (fuel + 1) s = some r := by
  simp [run, h]

/-- More fuel does not change a result. -/
theorem run_mono {fuel fuel' : Nat} {s : σ} {r : ρ} (h : run body fuel s = some r)
    (hle : fuel ≤ fuel') : run body fuel' s = some r := by
  induction fuel generalizing fuel' s with
  | zero => simp [run] at h
  | succ fuel ih =>
    obtain ⟨k, rfl⟩ : ∃ k, fuel' = k + 1 := ⟨fuel' - 1, by omega⟩
    cases hb : body s with
    | next s' =>
      rw [run_next hb] at h ⊢
      exact ih h (by omega)
    | done r' =>
      rw [run_done hb] at h ⊢
      exact h

/-- The result does not depend on the fuel that was enough to find it. -/
theorem run_unique {fuel fuel' : Nat} {s : σ} {r r' : ρ} (h : run body fuel s = some r)
    (h' : run body fuel' s = some r') : r = r' := by
  have e := run_mono h (Nat.le_max_left fuel fuel')
  have e' := run_mono h' (Nat.le_max_right fuel fuel')
  exact Option.some.inj (e.symm.trans e')

theorem terminates_next {s s' : σ} (h : body s = .next s') :
    Terminates body s ↔ Terminates body s' := by
  constructor
  · intro hh
    obtain ⟨fuel, hf⟩ := hh
    cases fuel with
    | zero => simp [run] at hf
    | succ fuel => exact ⟨fuel, by rwa [run_next h] at hf⟩
  · intro hh
    obtain ⟨fuel, hf⟩ := hh
    exact ⟨fuel + 1, by rwa [run_next h]⟩

theorem terminates_visits {s₀ s : σ} (h : Visits body s₀ s) :
    Terminates body s₀ ↔ Terminates body s := by
  induction h with
  | entry => rfl
  | pass _ hb ih => exact ih.trans (terminates_next hb)

/-- A pass that comes back to the state it started from is repeated for ever. -/
theorem not_terminates_of_stuck {s : σ} (h : body s = .next s) : ¬Terminates body s := by
  intro hh
  obtain ⟨fuel, hf⟩ := hh
  induction fuel with
  | zero => simp [run] at hf
  | succ fuel ih => exact ih (by rwa [run_next h] at hf)

/-- If every pass from a visited state decreases the measure, its initial value bounds the
number of passes. -/
theorem run_isSome_of_measure (μ : σ → Nat) {s : σ}
    (h : ∀ v v', Visits body s v → body v = .next v' → μ v' < μ v) :
    ∀ fuel, μ s < fuel → (run body fuel s).isSome := by
  have key : ∀ fuel v, Visits body s v → μ v < fuel → (run body fuel v).isSome := by
    intro fuel
    induction fuel with
    | zero => intro v _ hv; omega
    | succ fuel ih =>
      intro v hv hμ
      cases hb : body v with
      | next v' =>
        have hd := h v v' hv hb
        rw [run_next hb]
        exact ih v' (hv.pass hb) (by omega)
      | done r => simp [run_done hb]
  intro fuel hf
  exact key fuel s .entry hf

/-- The result is computed by the last pass, which starts in a visited state. -/
theorem exists_last_pass {fuel : Nat} {s₀ s : σ} {r : ρ} (hs : Visits body s₀ s)
    (h : run body fuel s = some r) : ∃ v, Visits body s₀ v ∧ body v = .done r := by
  induction fuel generalizing s with
  | zero => simp [run] at h
  | succ fuel ih =>
    cases hb : body s with
    | next s' =>
      rw [run_next hb] at h
      exact ih (hs.pass hb) h
    | done r' =>
      rw [run_done hb] at h
      exact ⟨s, hs, by rw [hb, Option.some.inj h]⟩

/-- What holds on entry and is kept by every pass holds of every visited state. -/
theorem Visits.invariant {P : σ → Prop} {s₀ s : σ} (h : Visits body s₀ s) (h₀ : P s₀)
    (hp : ∀ v v', P v → body v = .next v' → P v') : P s := by
  induction h with
  | entry => exact h₀
  | pass _ hb ih => exact hp _ _ ih hb

/-- What the loop returns from a visited state it returns from the entry. -/
theorem Visits.run {fuel : Nat} {s₀ s : σ} {r : ρ} (h : Visits body s₀ s)
    (hr : run body fuel s = some r) : ∃ fuel', Loop.run body fuel' s₀ = some r := by
  induction h generalizing fuel with
  | entry => exact ⟨fuel, hr⟩
  | pass _ hb ih =>
    exact ih ((run_next hb fuel).trans hr)

section Counting

variable {test : UInt32 → Bool} {body : UInt32 → σ → Pass σ ρ} {leave : σ → ρ}

/-- A loop `for (..; test(a); a++)` over a 32-bit variable, which wraps. -/
def countPass (test : UInt32 → Bool) (body : UInt32 → σ → Pass σ ρ) (leave : σ → ρ) :
    UInt32 × σ → Pass (UInt32 × σ) ρ
  | (a, s) =>
    if test a then
      match body a s with
      | .next s' => .next (a + 1, s')
      | .done r => .done r
    else .done (leave s)

/-- The body for some values of the variable one after the other, until it leaves the loop. -/
def scan (body : UInt32 → σ → Pass σ ρ) (leave : σ → ρ) : List UInt32 → σ → ρ
  | [], s => leave s
  | a :: as, s =>
    match body a s with
    | .next s' => scan body leave as s'
    | .done r => r

def countFrom (a : UInt32) (n : Nat) : List UInt32 :=
  (List.range n).map fun i => a + UInt32.ofNat i

theorem countFrom_succ (a : UInt32) (n : Nat) :
    countFrom a (n + 1) = a :: countFrom (a + 1) n := by
  rw [countFrom, List.range_succ_eq_map, List.map_cons, List.map_map, countFrom]
  congr 1
  · exact UInt32.add_zero a
  · apply List.map_congr_left
    intro i _
    rw [Function.comp_apply, UInt32.add_assoc]
    congr 1
    apply UInt32.toNat_inj.mp
    simp only [UInt32.toNat_add, UInt32.toNat_ofNat', UInt32.toNat_one]
    omega

theorem toNat_succ {a : UInt32} {limit : Nat} (hlimit : limit < 2 ^ 32) (ha : a.toNat < limit) :
    (a + 1).toNat = a.toNat + 1 := by
  rw [UInt32.toNat_add, UInt32.toNat_one]
  omega

variable {limit : Nat} (hlimit : limit < 2 ^ 32)
  (htest : ∀ a : UInt32, a.toNat ≤ limit → (test a = true ↔ a.toNat < limit))

include hlimit htest

/-- A loop whose limit fits the variable goes through the values below it and is left. -/
theorem run_countPass {n : Nat} {a : UInt32} (s : σ) (ha : a.toNat + n = limit) :
    run (countPass test body leave) (n + 1) (a, s) = some (scan body leave (countFrom a n) s) := by
  induction n generalizing a s with
  | zero =>
    have hout : test a = false := by
      rw [Bool.eq_false_iff, ne_eq, htest a (by omega)]
      omega
    apply run_done
    simp [countPass, hout, scan, countFrom]
  | succ n ih =>
    have hlt : a.toNat < limit := by omega
    have hin : test a = true := (htest a hlt.le).mpr hlt
    rw [countFrom_succ, scan]
    cases hb : body a s with
    | next s' =>
      have hpass : countPass test body leave (a, s) = .next (a + 1, s') := by
        simp [countPass, hin, hb]
      rw [run_next hpass]
      exact ih s' (by rw [toNat_succ hlimit hlt]; omega)
    | done r =>
      apply run_done
      simp [countPass, hin, hb]

/-- The variable only grows, and not past the limit: no value comes back. -/
theorem trace_countPass (fuel : Nat) {a : UInt32} (s : σ) (ha : a.toNat ≤ limit) :
    ((trace (countPass test body leave) fuel (a, s)).map Prod.fst).Pairwise (· < ·) ∧
      ∀ b ∈ (trace (countPass test body leave) fuel (a, s)).map Prod.fst,
        a.toNat ≤ b.toNat ∧ b.toNat ≤ limit := by
  induction fuel generalizing a s with
  | zero => simp [trace]
  | succ fuel ih =>
    rw [trace]
    cases hpass : countPass test body leave (a, s) with
    | done r =>
      simp [ha]
    | next v =>
      have hnext : test a = true ∧ v.1 = a + 1 := by
        rw [countPass] at hpass
        split at hpass
        · rename_i hin
          split at hpass
          · cases hpass
            exact ⟨hin, rfl⟩
          · cases hpass
        · cases hpass
      have hlt := (htest a ha).mp hnext.1
      have hsucc := toNat_succ hlimit hlt
      obtain ⟨b, s'⟩ := v
      obtain rfl : b = a + 1 := hnext.2
      obtain ⟨hincreasing, hbounds⟩ := ih (a := a + 1) s' (by omega)
      rw [List.map_cons, List.pairwise_cons]
      refine ⟨⟨?_, hincreasing⟩, ?_⟩
      · intro b hb
        have hle := (hbounds b hb).1
        change a < b
        rw [UInt32.lt_iff_toNat_lt]
        omega
      · intro b hb
        rcases List.mem_cons.mp hb with rfl | hb
        · exact ⟨le_rfl, ha⟩
        · have hb := hbounds b hb
          omega

end Counting

end Loop

end DHCPServer
