import DHCPServer.Framework.Json

namespace DHCPServer

/-- One step from a value to a child of it, by number or by key. -/
inductive JsonStep where
  | index (i : Nat)
  | key (k : List Char)
  deriving DecidableEq

namespace Json

/-- The number of the child a step leads to. Members can be counted like items. -/
def childIndex (v : Json) : JsonStep → Option Nat
  | .index i => if i < v.children.length then some i else none
  | .key k =>
    match v with
    | .object members => members.findIdx? fun m => sameKey m.1 k
    | _ => none

/-- The place of a value in a document: the numbers of the children on the way to it. -/
abbrev Place := List Nat

/-- The place that a path leads to. -/
def locate (v : Json) : List JsonStep → Option Place
  | [] => some []
  | s :: ss => do
    let i ← v.childIndex s
    let c ← v.children[i]?
    let p ← locate c ss
    return i :: p

/-- The value at a place. -/
def valueAt : Place → Json → Option Json
  | [], v => some v
  | i :: p, v => v.children[i]?.bind (valueAt p)

/-- Changes one child. -/
def modifyChild (i : Nat) (f : Json → Json) : Json → Json
  | .array items => .array (items.modify i f)
  | .object members => .object (members.modify i fun m => (m.1, f m.2))
  | v => v

/-- Changes the value at a place. -/
def modifyAt : Place → (Json → Json) → Json → Json
  | [], f, v => f v
  | i :: p, f, v => modifyChild i (modifyAt p f) v

/-- The value holds no other values. -/
def isLeaf : Json → Bool
  | .array _ | .object _ => false
  | _ => true

section Child

variable {f : Json → Json} {v c : Json} {i j : Nat}

theorem children_modifyChild (i : Nat) (f : Json → Json) (v : Json) :
    (modifyChild i f v).children = v.children.modify i f := by
  cases v with
  | array items => rfl
  | object members =>
    have hmap (i : Nat) (ms : List (List Char × Json)) :
        (ms.modify i fun m => (m.1, f m.2)).map Prod.snd = (ms.map Prod.snd).modify i f := by
      induction ms generalizing i with
      | nil => cases i <;> rfl
      | cons m ms ih => cases i <;> simp [ih]
    exact hmap i members
  | null | bool _ | number _ | string _ => simp [modifyChild, children]

/-- A changed child does not lead a step elsewhere. -/
theorem childIndex_modifyChild (s : JsonStep) :
    (modifyChild i f v).childIndex s = v.childIndex s := by
  cases s with
  | index k => simp only [childIndex, children_modifyChild, List.length_modify]
  | key k =>
    cases v with
    | object members =>
      have hfind (i : Nat) (ms : List (List Char × Json)) :
          (ms.modify i fun m => (m.1, f m.2)).findIdx? (fun m => sameKey m.1 k) =
            ms.findIdx? fun m => sameKey m.1 k := by
        induction ms generalizing i with
        | nil => cases i <;> rfl
        | cons m ms ih =>
          cases i with
          | zero => simp [List.findIdx?_cons]
          | succ i => simp [List.findIdx?_cons, ih]
      exact hfind i members
    | _ => rfl

/-- A leaf has no children. -/
theorem children_of_isLeaf (h : v.isLeaf = true) : v.children = [] := by
  cases v <;> first | rfl | cases h

theorem childIndex_of_isLeaf (h : v.isLeaf = true) (s : JsonStep) : v.childIndex s = none := by
  cases s with
  | index i => simp [childIndex, children_of_isLeaf h]
  | key k => cases v <;> first | rfl | cases h

end Child

section Place

variable {f : Json → Json} {v leaf : Json} {p q : Place}

/-- The changed value is found at its place. -/
theorem valueAt_modifyAt_self (p : Place) (v : Json) :
    valueAt p (modifyAt p f v) = (valueAt p v).map f := by
  induction p generalizing v with
  | nil => rfl
  | cons i p ih =>
    rw [modifyAt, valueAt, valueAt, children_modifyChild, List.getElem?_modify_eq]
    cases v.children[i]? with
    | none => rfl
    | some c => exact ih c

/-- At a place that is not above the changed one the value is what it was. -/
theorem valueAt_modifyAt_other (h : ¬q <+: p) (v : Json) :
    (∃ r, q = p ++ r) ∨ valueAt q (modifyAt p f v) = valueAt q v := by
  induction p generalizing q v with
  | nil => exact .inl ⟨q, rfl⟩
  | cons i p ih =>
    cases q with
    | nil => exact absurd List.nil_prefix h
    | cons j q =>
      rw [modifyAt, valueAt, valueAt, children_modifyChild]
      by_cases hij : i = j
      · subst hij
        have hrest : ¬q <+: p := fun hq => h (List.cons_prefix_cons.mpr ⟨rfl, hq⟩)
        rw [List.getElem?_modify_eq]
        cases hc : v.children[i]? with
        | none => exact .inr rfl
        | some c =>
          rcases ih hrest c with ⟨r, rfl⟩ | heq
          · exact .inl ⟨r, rfl⟩
          · exact .inr heq
      · rw [List.getElem?_modify_ne _ _ hij]
        exact .inr rfl

/-- A leaf that is replaced by a leaf leaves every path where it leads. -/
theorem locate_modifyAt (hold : valueAt p v = some leaf) (hleaf : leaf.isLeaf = true)
    (hnew : (f leaf).isLeaf = true) (ss : List JsonStep) :
    (modifyAt p f v).locate ss = v.locate ss := by
  induction ss generalizing p v with
  | nil => rfl
  | cons s ss ih =>
    cases p with
    | nil =>
      obtain rfl := Option.some.inj hold
      rw [locate, locate, modifyAt, childIndex_of_isLeaf hleaf, childIndex_of_isLeaf hnew]
      rfl
    | cons i p =>
      rw [locate, locate, modifyAt, childIndex_modifyChild, children_modifyChild]
      obtain ⟨c, hc, hp⟩ := Option.bind_eq_some_iff.mp hold
      cases hs : v.childIndex s with
      | none => rfl
      | some j =>
        by_cases hij : i = j
        · subst hij
          have hmod : (v.children.modify i (modifyAt p f))[i]? = some (modifyAt p f c) := by
            rw [List.getElem?_modify_eq, hc]
            rfl
          simp only [bind, Option.bind_some, hmod, hc, ih hp]
        · simp only [bind, Option.bind_some, List.getElem?_modify_ne _ _ hij]

/-- The value that a path leads to is at its place. -/
theorem valueAt_locate {ss : List JsonStep} (h : v.locate ss = some p) :
    ∃ c, valueAt p v = some c := by
  induction ss generalizing p v with
  | nil =>
    cases h
    exact ⟨v, rfl⟩
  | cons s ss ih =>
    rw [locate] at h
    simp only [bind, Option.bind_eq_some_iff] at h
    obtain ⟨i, -, c, hc, q, hq, hp⟩ := h
    obtain rfl := Option.some.inj hp
    obtain ⟨d, hd⟩ := ih hq
    exact ⟨d, by rw [valueAt, hc, Option.bind_some, hd]⟩

/-- Nothing lies below a leaf. -/
theorem valueAt_below_leaf {r : Place} (hold : valueAt p v = some leaf)
    (hleaf : leaf.isLeaf = true) (hr : r ≠ []) : valueAt (p ++ r) v = none := by
  induction p generalizing v with
  | nil =>
    obtain rfl := Option.some.inj hold
    cases r with
    | nil => exact absurd rfl hr
    | cons i r => simp [valueAt, children_of_isLeaf hleaf]
  | cons i p ih =>
    obtain ⟨c, hc, hp⟩ := Option.bind_eq_some_iff.mp hold
    rw [List.cons_append, valueAt, hc]
    exact ih hp

end Place

end Json

end DHCPServer
