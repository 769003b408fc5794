import DHCPServer.Framework.Fault

namespace DHCPServer

/-- What a pointer to an object on the heap holds. -/
abbrev Handle := Nat

/-- The objects that are live, by handle. -/
structure Heap (α : Type) where
  cells : List (Handle × α)

namespace Heap

variable {α : Type}

/-- The object a handle refers to; `none` when it is not live. -/
def get (heap : Heap α) (h : Handle) : Option α := (heap.cells.find? fun x => x.1 == h).map Prod.snd

/-- `free` -/
def free (heap : Heap α) (h : Handle) : Heap α := ⟨heap.cells.filter fun x => x.1 != h⟩

/-- An object is put at a handle. -/
def put (heap : Heap α) (h : Handle) (a : α) : Heap α := ⟨(h, a) :: (heap.free h).cells⟩

/-- Reading through a pointer: it must not be NULL, and what it points to must be live. -/
def follow (heap : Heap α) : Option Handle → Except Fault α
  | none => .error .nullDeref
  | some h =>
    match heap.get h with
    | some a => .ok a
    | none => .error .outOfBounds

/-- `free` of an object that may have been freed before. -/
def release (heap : Heap α) (h : Handle) : Except Fault (Heap α) := do
  let _ ← heap.follow (some h)
  return heap.free h

def freeAll (heap : Heap α) (hs : List Handle) : Heap α := hs.foldl free heap

/-- A place for a new object: anywhere, a handle that was freed before included, but not where
an object is live. -/
def Allocates (malloc : Heap α → Handle) : Prop := ∀ heap : Heap α, heap.get (malloc heap) = none

/-- The allocation of handles in order, none of them twice while an object with a higher one is
live. -/
def nextHandle (heap : Heap α) : Handle := (heap.cells.map Prod.fst).foldr max 0 + 1

/-- `calloc`: NULL when there is no memory left, or the place of a new object. -/
structure Calloc (α : Type) where
  place : Heap α → Option Handle
  fresh : ∀ heap h, place heap = some h → heap.get h = none

variable {heap : Heap α} {h h' : Handle} {a : α}

theorem follow_eq_ok {p : Option Handle} :
    heap.follow p = .ok a ↔ ∃ h, p = some h ∧ heap.get h = some a := by
  cases p with
  | none => simp [follow]
  | some h =>
    cases hget : heap.get h with
    | none => simp [follow, hget]
    | some b => simp [follow, hget]

theorem follow_of_get (hget : heap.get h = some a) : heap.follow (some h) = .ok a :=
  follow_eq_ok.mpr ⟨h, rfl, hget⟩

theorem release_of_get (hget : heap.get h = some a) : heap.release h = .ok (heap.free h) := by
  simp [release, follow_of_get hget, bind, Except.bind, pure, Except.pure]

theorem get_free_self : (heap.free h).get h = none := by
  rw [get, free, List.find?_filter, Option.map_eq_none_iff]
  apply List.find?_eq_none.mpr
  simp

theorem get_free_ne (hne : h' ≠ h) : (heap.free h).get h' = heap.get h' := by
  unfold get free
  rw [List.find?_filter]
  congr 2
  funext x
  by_cases hx : x.1 = h'
  · simp [hx, hne]
  · simp [hx]

theorem get_put_self : (heap.put h a).get h = some a := by
  simp [get, put]

theorem get_put_ne (hne : h' ≠ h) : (heap.put h a).get h' = heap.get h' := by
  have hfree : (heap.free h).get h' = heap.get h' := get_free_ne hne
  unfold get at hfree ⊢
  rw [put, List.find?_cons_of_neg (by simpa using hne.symm), hfree]

theorem get_freeAll {hs : List Handle} :
    (heap.freeAll hs).get h = if h ∈ hs then none else heap.get h := by
  induction hs generalizing heap with
  | nil => simp [freeAll]
  | cons k hs ih =>
    rw [freeAll, List.foldl_cons, ← freeAll, ih]
    by_cases hk : h = k
    · simp [hk, get_free_self]
    · simp [hk, get_free_ne hk]

/-- There are not more live objects than places in memory. -/
theorem length_le_of_live {hs : List Handle} (hn : hs.Nodup)
    (hlive : ∀ h ∈ hs, heap.get h ≠ none) : hs.length ≤ heap.cells.length := by
  have hsub : hs ⊆ heap.cells.map Prod.fst := by
    intro h hh
    have hfound := hlive h hh
    rw [get, ne_eq, Option.map_eq_none_iff, List.find?_eq_none] at hfound
    push Not at hfound
    obtain ⟨x, hx, he⟩ := hfound
    exact List.mem_map.mpr ⟨x, hx, by simpa using he⟩
  simpa using (List.subperm_of_subset hn hsub).length_le

/-- What is live stays where it is when a new object is put into memory. -/
theorem get_put_of_live {malloc : Heap α → Handle} (hm : Allocates malloc) {b : α}
    (hlive : heap.get h = some b) : (heap.put (malloc heap) a).get h = some b := by
  have hne : h ≠ malloc heap := by
    rintro rfl
    rw [hm heap] at hlive
    cases hlive
  rw [get_put_ne hne, hlive]

theorem nextHandle_allocates : Allocates (@nextHandle α) := by
  intro heap
  obtain ⟨cells⟩ := heap
  have hbelow : ∀ x ∈ cells, x.1 ≤ (cells.map Prod.fst).foldr max 0 := by
    induction cells with
    | nil => simp
    | cons y ys ih =>
      intro x hx
      rw [List.map_cons, List.foldr_cons]
      rcases List.mem_cons.mp hx with rfl | hx
      · exact le_max_left _ _
      · exact (ih x hx).trans (le_max_right _ _)
  have hnone : cells.find? (fun x => x.1 == nextHandle ⟨cells⟩) = none := by
    apply List.find?_eq_none.mpr
    intro x hx
    have hle : x.1 ≤ (cells.map Prod.fst).foldr max 0 := hbelow x hx
    have hne : x.1 ≠ (cells.map Prod.fst).foldr max 0 + 1 :=
      (Nat.lt_succ_of_le hle).ne
    simpa [nextHandle] using hne
  rw [get, hnone]
  rfl

/-- An allocator that never runs out of memory. -/
def Calloc.unbounded : Calloc α where
  place heap := some heap.nextHandle
  fresh heap h hplace := by
    cases hplace
    exact nextHandle_allocates heap

end Heap

end DHCPServer
