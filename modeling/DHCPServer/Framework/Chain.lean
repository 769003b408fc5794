import DHCPServer.Framework.Heap

namespace DHCPServer

variable {α β : Type} {link : α → Option Handle} {value : α → β}

/-- The objects that are met from a pointer along `link` until NULL: the handle of each and what
is kept in it. -/
inductive Chain (link : α → Option Handle) (value : α → β) (heap : Heap α) :
    Option Handle → List (Handle × β) → Prop
  | nil : Chain link value heap none []
  | cons {h : Handle} {a : α} {xs : List (Handle × β)} : heap.get h = some a →
      Chain link value heap (link a) xs → Chain link value heap (some h) ((h, value a) :: xs)

namespace Chain

variable {heap heap' : Heap α} {p : Option Handle} {h : Handle} {a b : α} {v : β}
  {xs : List (Handle × β)}

/-- A chain begins where the pointer points. -/
theorem head_eq (hc : Chain link value heap p xs) : p = xs.head?.map Prod.fst := by
  cases hc with
  | nil => rfl
  | cons _ _ => rfl

theorem eq_nil_iff (hc : Chain link value heap p xs) : xs = [] ↔ p = none := by
  rw [hc.head_eq, Option.map_eq_none_iff, List.head?_eq_none_iff]

/-- A chain with a first object. -/
theorem cons_inv (hc : Chain link value heap p ((h, v) :: xs)) :
    ∃ a, p = some h ∧ v = value a ∧ heap.get h = some a ∧ Chain link value heap (link a) xs := by
  cases hc with
  | cons hget htail => exact ⟨_, rfl, rfl, hget, htail⟩

/-- Every object of a chain is live and has the value that the chain says. -/
theorem get_eq (hc : Chain link value heap p xs) {x : Handle × β} (hx : x ∈ xs) :
    ∃ a, heap.get x.1 = some a ∧ value a = x.2 := by
  induction hc with
  | nil => cases hx
  | cons hget _ ih =>
    cases hx with
    | head => exact ⟨_, hget, rfl⟩
    | tail _ hx => exact ih hx

theorem live (hc : Chain link value heap p xs) : ∀ k ∈ xs.map Prod.fst, heap.get k ≠ none := by
  intro k hk
  obtain ⟨x, hx, rfl⟩ := List.mem_map.mp hk
  obtain ⟨a, hget, _⟩ := hc.get_eq hx
  simp [hget]

/-- A chain depends on its own objects only. -/
theorem frame (hc : Chain link value heap p xs)
    (hsame : ∀ k ∈ xs.map Prod.fst, heap'.get k = heap.get k) : Chain link value heap' p xs := by
  induction hc with
  | nil => exact .nil
  | cons hget _ ih =>
    rw [List.map_cons, List.forall_mem_cons] at hsame
    exact .cons (hsame.1.trans hget) (ih hsame.2)

/-- The chain gets one object longer when the link of its last object is set to a new one. -/
theorem snoc (hc : Chain link value heap p (xs ++ [(h, v)]))
    (hsame : ∀ k ∈ xs.map Prod.fst, heap'.get k = heap.get k)
    {k : Handle} (hlast : heap'.get h = some b) (hv : value b = v) (hlink : link b = some k)
    (hnew : heap'.get k = some a) (hend : link a = none) :
    Chain link value heap' p (xs ++ [(h, v)] ++ [(k, value a)]) := by
  induction xs generalizing p with
  | nil =>
    obtain ⟨_, rfl, _, _, _⟩ := hc.cons_inv
    have htail : Chain link value heap' (link b) [(k, value a)] := by
      rw [hlink]
      apply Chain.cons hnew
      rw [hend]
      exact .nil
    subst hv
    exact .cons hlast htail
  | cons x xs ih =>
    obtain ⟨k', w⟩ := x
    obtain ⟨c, rfl, rfl, hget, htail⟩ := hc.cons_inv
    rw [List.map_cons, List.forall_mem_cons] at hsame
    exact .cons (hsame.1.trans hget) (ih htail hsame.2)

end Chain

end DHCPServer
