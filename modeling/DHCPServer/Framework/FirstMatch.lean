import Mathlib.Data.List.Basic
import Mathlib.Tactic

namespace DHCPServer

variable {α ρ : Type}

/-- Runs `f` on the first element that satisfies `q` and puts the changed element back in its
place: a search that returns a pointer into a list, followed by work on the object it found. -/
def onFirst (q : α → Bool) (f : α → ρ × α) : List α → Option (ρ × List α)
  | [] => none
  | x :: xs =>
    if q x then some ((f x).1, (f x).2 :: xs)
    else (onFirst q f xs).map fun r => (r.1, x :: r.2)

theorem onFirst_eq_none {q : α → Bool} {f : α → ρ × α} {l : List α} :
    onFirst q f l = none ↔ ∀ x ∈ l, q x = false := by
  induction l with
  | nil => simp [onFirst]
  | cons x xs ih =>
    cases hq : q x <;> simp [onFirst, hq, ih]

theorem onFirst_eq_some {q : α → Bool} {f : α → ρ × α} {l : List α} {r : ρ × List α}
    (h : onFirst q f l = some r) :
    ∃ pre x post, l = pre ++ x :: post ∧ (∀ y ∈ pre, q y = false) ∧ q x = true ∧
      r = ((f x).1, pre ++ (f x).2 :: post) := by
  induction l generalizing r with
  | nil => cases h
  | cons x xs ih =>
    cases hq : q x with
    | true =>
      rw [onFirst, if_pos hq] at h
      exact ⟨[], x, xs, rfl, by simp, hq, (Option.some.inj h).symm⟩
    | false =>
      rw [onFirst, if_neg (by simp [hq])] at h
      obtain ⟨r', hr', rfl⟩ := Option.map_eq_some_iff.mp h
      obtain ⟨pre, y, post, rfl, hpre, hy, rfl⟩ := ih hr'
      refine ⟨x :: pre, y, post, rfl, ?_, hy, rfl⟩
      intro z hz
      rcases List.mem_cons.mp hz with rfl | hz
      · exact hq
      · exact hpre z hz

theorem onFirst_append {q : α → Bool} {f : α → ρ × α} {pre post : List α} {x : α}
    (hpre : ∀ y ∈ pre, q y = false) (hx : q x = true) :
    onFirst q f (pre ++ x :: post) = some ((f x).1, pre ++ (f x).2 :: post) := by
  induction pre with
  | nil => simp [onFirst, hx]
  | cons y pre ih =>
    have hy := hpre y (by simp)
    rw [List.cons_append, onFirst, hy, ih fun z hz => hpre z (by simp [hz])]
    rfl

/-- A search and the work on what it finds commute with a map that neither of them sees. -/
theorem onFirst_map {q q' : α → Bool} {f f' : α → ρ × α} {g : α → α} (hq : ∀ x, q' (g x) = q x)
    (hf : ∀ x, f' (g x) = ((f x).1, g (f x).2)) (l : List α) :
    onFirst q' f' (l.map g) = (onFirst q f l).map fun r => (r.1, r.2.map g) := by
  induction l with
  | nil => rfl
  | cons x xs ih =>
    rw [List.map_cons, onFirst, onFirst, hq, hf, ih]
    cases q x with
    | true => rfl
    | false =>
      rw [if_neg Bool.false_ne_true, if_neg Bool.false_ne_true, Option.map_map, Option.map_map]
      rfl

/-- An element that is not the one replaced keeps its place; in front of it there is what was there
and perhaps the new element. -/
theorem append_replace_other {pre post pre' post' : List α} {x y : α} (y' : α)
    (h : pre ++ x :: post = pre' ++ y :: post') (hne : x ≠ y) :
    ∃ front back, pre' ++ y' :: post' = front ++ x :: back ∧ ∀ z ∈ front, z ∈ pre ∨ z = y' := by
  rcases List.append_eq_append_iff.mp h with ⟨as, hpre, hpost⟩ | ⟨as, hpre, hpost⟩
  · cases as with
    | nil => exact absurd (List.cons.inj hpost).1 hne
    | cons z as =>
      obtain ⟨rfl, -⟩ := List.cons.inj hpost
      exact ⟨pre, as ++ y' :: post', by simp [hpre], fun z hz => .inl hz⟩
  · cases as with
    | nil => exact absurd (List.cons.inj hpost).1.symm hne
    | cons z as =>
      obtain ⟨rfl, rfl⟩ := List.cons.inj hpost
      refine ⟨pre' ++ y' :: as, post, by simp, ?_⟩
      intro z hz
      simp only [hpre, List.mem_append, List.mem_cons] at hz ⊢
      tauto

theorem find?_append_first {q : α → Bool} {pre post : List α} {x : α}
    (hpre : ∀ y ∈ pre, q y = false) (hx : q x = true) : (pre ++ x :: post).find? q = some x := by
  rw [List.find?_append, List.find?_eq_none.mpr (by simpa using hpre)]
  simp [hx]

/-- Keys that occur once find their own element. -/
theorem find?_of_nodup {β : Type} [DecidableEq β] {key : α → β} {l : List α} {x : α}
    (hn : (l.map key).Nodup) (hx : x ∈ l) : l.find? (fun y => key y == key x) = some x := by
  obtain ⟨pre, post, rfl⟩ := List.append_of_mem hx
  apply find?_append_first
  · intro y hy
    rw [List.map_append, List.map_cons, List.nodup_append] at hn
    have hne := hn.2.2 (key y) (List.mem_map_of_mem hy) (key x) (by simp)
    simpa using hne
  · simp

/-- An element is the one that is erased for its key, when keys occur once. -/
theorem eraseP_of_nodup {β : Type} [DecidableEq β] {key : α → β} {pre post : List α} {x : α}
    (hn : ((pre ++ x :: post).map key).Nodup) :
    (pre ++ x :: post).eraseP (fun y => key y == key x) = pre ++ post := by
  rw [List.map_append, List.map_cons, List.nodup_append] at hn
  have hpre : ∀ y ∈ pre, ¬(key y == key x) = true := by
    intro y hy
    have hne := hn.2.2 (key y) (List.mem_map_of_mem hy) (key x) (by simp)
    simpa using hne
  rw [List.eraseP_append_right _ hpre, List.eraseP_cons_of_pos (by simp)]

/-- The first match stands between the elements that stay when it is erased. -/
theorem find?_split {q : α → Bool} {l : List α} {x : α} (h : l.find? q = some x) :
    ∃ pre post, l = pre ++ x :: post ∧ l.eraseP q = pre ++ post := by
  obtain ⟨hx, pre, post, rfl, hpre⟩ := List.find?_eq_some_iff_append.mp h
  refine ⟨pre, post, rfl, ?_⟩
  rw [List.eraseP_append_right _ (by simpa using hpre), List.eraseP_cons_of_pos hx]

section Single

variable {q : α → Bool} {l : List α}

/-- Two matches in a list with at most one are the same element. -/
theorem eq_of_countP_le_one (h : l.countP q ≤ 1) {x y : α} (hx : x ∈ l) (hy : y ∈ l)
    (hqx : q x = true) (hqy : q y = true) : x = y := by
  rw [List.countP_eq_length_filter] at h
  have hx' : x ∈ l.filter q := List.mem_filter.mpr ⟨hx, hqx⟩
  have hy' : y ∈ l.filter q := List.mem_filter.mpr ⟨hy, hqy⟩
  match hl : l.filter q with
  | [] =>
    rw [hl] at hx'
    cases hx'
  | [z] =>
    rw [hl, List.mem_singleton] at hx' hy'
    rw [hx', hy']
  | _ :: _ :: _ =>
    rw [hl] at h
    simp at h

/-- The only match is the first one. -/
theorem any_find?_of_countP_le_one (h : l.countP q ≤ 1) (f : α → Bool) :
    (l.find? q).any f = l.any fun x => q x && f x := by
  rw [Bool.eq_iff_iff, Option.any_eq_true, List.any_eq_true]
  constructor
  · intro hf
    obtain ⟨x, hx, hfx⟩ := hf
    exact ⟨x, List.mem_of_find?_eq_some hx, by simp [List.find?_some hx, hfx]⟩
  · intro hf
    obtain ⟨x, hx, hfx⟩ := hf
    rw [Bool.and_eq_true] at hfx
    cases hfind : l.find? q with
    | none => exact absurd hfx.1 (List.find?_eq_none.mp hfind x hx)
    | some y =>
      have heq := eq_of_countP_le_one h hx (List.mem_of_find?_eq_some hfind) hfx.1
        (List.find?_some hfind)
      exact ⟨y, rfl, heq ▸ hfx.2⟩

theorem eraseP_of_countP_le_one (h : l.countP q ≤ 1) : l.eraseP q = l.filter (!q ·) := by
  induction l with
  | nil => rfl
  | cons x l ih =>
    rw [List.countP_cons] at h
    cases hx : q x with
    | true =>
      have hzero : l.countP q = 0 := by
        rw [hx, if_pos rfl] at h
        omega
      have hall : l.filter (!q ·) = l := by
        rw [List.filter_eq_self]
        intro y hy
        simpa using List.countP_eq_zero.mp hzero y hy
      rw [List.eraseP_cons_of_pos hx, List.filter_cons_of_neg (by simp [hx]), hall]
    | false =>
      rw [hx, if_neg Bool.false_ne_true] at h
      rw [List.eraseP_cons_of_neg (by simp [hx]), List.filter_cons_of_pos (by simp [hx]), ih h]

end Single

/-- What stands behind an element that is not in front of `x` stands behind `x`. -/
theorem mem_of_sublist_pair {pre post : List α} {x y z : α}
    (h : [y, z].Sublist (pre ++ x :: post)) (hy : y ∉ pre) : z ∈ post := by
  obtain ⟨l₁, l₂, hl, h₁, h₂⟩ := List.sublist_append_iff.mp h
  cases l₁ with
  | nil =>
    rw [List.nil_append] at hl
    rw [← hl] at h₂
    cases h₂ with
    | cons _ h => exact h.subset (by simp)
    | cons_cons _ h => exact h.subset (by simp)
  | cons w l₁ =>
    rw [List.cons_append, List.cons.injEq] at hl
    exact absurd (h₁.subset (by simp [hl.1])) hy

section Paired

variable {α β : Type*} {R S : α → β → Prop} {xs : List α} {ys : List β}

/-- A relation between paired elements may be weakened with what is known of the second ones. -/
theorem forall₂_imp_mem (h : List.Forall₂ R xs ys) (himp : ∀ x, ∀ y ∈ ys, R x y → S x y) :
    List.Forall₂ S xs ys := by
  induction h with
  | nil => exact .nil
  | cons hR _ ih =>
    exact .cons (himp _ _ List.mem_cons_self hR) (ih fun x y hy => himp x y (List.mem_cons_of_mem _ hy))

/-- A relation between paired elements may be changed with what is known of the first ones. -/
theorem forall₂_of_mem (h : List.Forall₂ R xs ys) (himp : ∀ x ∈ xs, ∀ y, R x y → S x y) :
    List.Forall₂ S xs ys := by
  induction h with
  | nil => exact .nil
  | cons hR _ ih =>
    exact .cons (himp _ List.mem_cons_self _ hR) (ih fun x hx => himp x (List.mem_cons_of_mem _ hx))

theorem forall₂_partner (h : List.Forall₂ R xs ys) {x : α} (hx : x ∈ xs) : ∃ y ∈ ys, R x y := by
  induction h with
  | nil => cases hx
  | cons hR _ ih =>
    rcases List.mem_cons.mp hx with rfl | hx
    · exact ⟨_, List.mem_cons_self, hR⟩
    · obtain ⟨y, hy, hxy⟩ := ih hx
      exact ⟨y, List.mem_cons_of_mem _ hy, hxy⟩

/-- The first match of one list, found together with its partner in the other. -/
theorem find?_zip_of_forall₂ (h : List.Forall₂ R xs ys) {p : α → Bool} {x : α}
    (hx : xs.find? p = some x) :
    ∃ y, (xs.zip ys).find? (fun z => p z.1) = some (x, y) ∧ R x y := by
  induction h with
  | nil => cases hx
  | @cons a b _ _ hR _ ih =>
    rw [List.zip_cons_cons]
    cases hp : p a with
    | true =>
      rw [List.find?_cons_of_pos hp] at hx
      obtain rfl := Option.some.inj hx
      exact ⟨b, List.find?_cons_of_pos hp, hR⟩
    | false =>
      rw [List.find?_cons_of_neg (by simp [hp])] at hx
      rw [List.find?_cons_of_neg (by simp [hp])]
      exact ih hx

end Paired

/-- A list grows by its next element only if the element is new. -/
theorem eraseDups_concat [DecidableEq α] (l : List α) (x : α) :
    (l ++ [x]).eraseDups = if x ∈ l then l.eraseDups else l.eraseDups ++ [x] := by
  rw [List.eraseDups_append, List.removeAll]
  by_cases hx : x ∈ l
  · simp [hx]
  · simp [hx, List.eraseDups_cons]

/-- Where an element stands in a history that is one longer: at its end, or already before. -/
theorem concat_eq_split_iff {l before after : List α} {c x : α} :
    l ++ [c] = before ++ x :: after ↔
      (l = before ∧ c = x ∧ after = []) ∨
        ∃ after', after = after' ++ [c] ∧ l = before ++ x :: after' := by
  constructor
  · intro h
    rcases List.eq_nil_or_concat after with rfl | ⟨after', d, rfl⟩
    · obtain ⟨hl, hc⟩ := List.append_inj' h rfl
      exact .inl ⟨hl, (List.cons.inj hc).1, rfl⟩
    · rw [List.concat_eq_append, ← List.cons_append, ← List.append_assoc] at h
      obtain ⟨hl, hc⟩ := List.append_inj' h rfl
      obtain rfl := (List.cons.inj hc).1
      exact .inr ⟨after', List.concat_eq_append, hl⟩
  · rintro (⟨rfl, rfl, rfl⟩ | ⟨after', rfl, rfl⟩)
    · rfl
    · simp

end DHCPServer
