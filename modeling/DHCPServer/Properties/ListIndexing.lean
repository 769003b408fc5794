import DHCPServer.Framework.Transition
import DHCPServer.Transaction.Transaction
import DHCPServer.Utils.Llist

namespace DHCPServer

/-- A call of the list functions; each allocation may fail, or be made anywhere. In between the
rest of the program allocates and frees data. -/
inductive Call (δ : Type) where
  | new (calloc : Heap.Calloc Llist)
  | append (calloc : Heap.Calloc Llnode) (list data : Option Handle) (freeData : Bool)
  | clear (list : Option Handle)
  | destroy (listPtr : Option (Option Handle))
  | other (data : Heap δ)

variable {δ : Type}

def Call.run (mem : Memory δ) : Call δ → Except Fault (Memory δ)
  | .new calloc => .ok (llistNew calloc mem).2
  | .append calloc list data freeData => (llistAppend calloc mem list data freeData).map Prod.snd
  | .clear list => llistClear mem list
  | .destroy listPtr => (llistDestroy mem listPtr).map Prod.snd
  | .other data => .ok { mem with data := data }

/-- What the calls are for: the nodes that each list has got since it was made or last cleared. -/
def Call.record (mem : Memory δ) (appended : Handle → List (Handle × Item)) :
    Call δ → Handle → List (Handle × Item)
  | .new calloc =>
    match calloc.place mem.lists with
    | some list => Function.update appended list []
    | none => appended
  | .append calloc (some list) (some data) freeData =>
    match calloc.place mem.nodes with
    | some node => Function.update appended list (appended list ++ [(node, ⟨data, freeData⟩)])
    | none => appended
  | .clear (some list) => Function.update appended list []
  | .destroy (some (some list)) => Function.update appended list []
  | _ => appended

theorem Call.record_append_of_none {mem : Memory δ} {calloc : Heap.Calloc Llnode}
    {list data : Option Handle} {free : Bool} (appended : Handle → List (Handle × Item))
    (h : list = none ∨ data = none ∨ calloc.place mem.nodes = none) :
    (Call.append calloc list data free).record mem appended = appended := by
  cases list with
  | none => rfl
  | some list =>
    cases data with
    | none => rfl
    | some data =>
      have hplace : calloc.place mem.nodes = none := by simpa using h
      simp [Call.record, hplace]

/-- The memory, and beside it, for statements only, what was appended to the lists in it. -/
structure Lists (δ : Type) where
  mem : Memory δ
  appended : Handle → List (Handle × Item)

namespace Lists

def step (s : Lists δ) (call : Call δ) : Except Fault (Lists δ) := do
  let mem ← call.run s.mem
  return ⟨mem, call.record s.mem s.appended⟩

def Live (s : Lists δ) (list : Handle) : Prop := s.mem.lists.get list ≠ none

instance (s : Lists δ) (list : Handle) : Decidable (s.Live list) :=
  inferInstanceAs (Decidable (_ ≠ _))

/-- The states after any calls for any lists, from a memory without lists. -/
def Built (s : Lists δ) : Prop :=
  Reachable step (fun _ _ => True) (fun s => ∀ list, ¬s.Live list) s

def handles (s : Lists δ) (list : Handle) : List Handle := (s.appended list).map Prod.fst

/-- The lists in memory have the nodes that were appended to them, and share none. -/
structure Represented (s : Lists δ) : Prop where
  has : ∀ list ll, s.mem.lists.get list = some ll → ll.Has s.mem.nodes (s.appended list)
  apart : ∀ list list', s.Live list → s.Live list' → list ≠ list' →
    (s.handles list).Disjoint (s.handles list')

variable {s s' : Lists δ} {list : Handle}

theorem Represented.of_live (hr : s.Represented) (hlive : s.Live list) :
    ∃ ll, s.mem.lists.get list = some ll ∧ ll.Has s.mem.nodes (s.appended list) := by
  obtain ⟨ll, hll⟩ := Option.ne_none_iff_exists'.mp hlive
  exact ⟨ll, hll, hr.has list ll hll⟩

theorem Represented.live_node (hr : s.Represented) (hlive : s.Live list) {k : Handle}
    (hk : k ∈ s.handles list) : s.mem.nodes.get k ≠ none := by
  obtain ⟨ll, _, hh⟩ := hr.of_live hlive
  exact hh.chain.live k hk

/-- A call that works on one list and keeps the nodes of the others. -/
theorem Represented.update (hr : s.Represented) {mem : Memory δ} {xs : List (Handle × Item)}
    (hothers : ∀ k, k ≠ list → mem.lists.get k = s.mem.lists.get k)
    (hhas : ∀ ll, mem.lists.get list = some ll → ll.Has mem.nodes xs)
    (hsame : ∀ k, k ≠ list → s.Live k → ∀ n ∈ s.handles k, mem.nodes.get n = s.mem.nodes.get n)
    (hapart : mem.lists.get list ≠ none → ∀ k, k ≠ list → s.Live k →
      (xs.map Prod.fst).Disjoint (s.handles k)) :
    Represented ⟨mem, Function.update s.appended list xs⟩ := by
  have hlive : ∀ k, k ≠ list → Live ⟨mem, Function.update s.appended list xs⟩ k → s.Live k := by
    intro k hk h
    rwa [Live, hothers k hk] at h
  constructor
  · intro k ll hll
    dsimp only at hll ⊢
    by_cases hk : k = list
    · subst hk
      rw [Function.update_self]
      exact hhas ll hll
    · rw [Function.update_of_ne hk]
      have hll' : s.mem.lists.get k = some ll := by rw [← hothers k hk, hll]
      apply (hr.has k ll hll').frame
      exact hsame k hk (by simp [Live, hll'])
  · intro k k' hk hk' hne
    simp only [handles]
    by_cases hkl : k = list
    · subst hkl
      have hne' : k' ≠ k := hne.symm
      rw [Function.update_self, Function.update_of_ne hne']
      exact hapart hk k' hne' (hlive k' hne' hk')
    · by_cases hkl' : k' = list
      · subst hkl'
        rw [Function.update_self, Function.update_of_ne hkl]
        exact (hapart hk' k hkl (hlive k hkl hk)).symm
      · rw [Function.update_of_ne hkl, Function.update_of_ne hkl']
        exact hr.apart k k' (hlive k hkl hk) (hlive k' hkl' hk') hne

theorem Represented.new (hr : s.Represented) (calloc : Heap.Calloc Llist) :
    Represented ⟨(llistNew calloc s.mem).2, (Call.new calloc).record s.mem s.appended⟩ := by
  cases hplace : calloc.place s.mem.lists with
  | none => simpa [llistNew, Call.record, hplace] using hr
  | some list =>
    simp only [llistNew, Call.record, hplace]
    apply hr.update
    · intro k hk
      exact Heap.get_put_ne hk
    · intro ll hll
      rw [Heap.get_put_self] at hll
      cases hll
      exact Llist.Has.nil _
    · intro k _ _ n _
      rfl
    · simp

theorem Represented.append (hr : s.Represented) {calloc : Heap.Calloc Llnode}
    {l d : Option Handle} {free : Bool} {rv : Int} {mem : Memory δ}
    (hrun : llistAppend calloc s.mem l d free = .ok (rv, mem)) :
    Represented ⟨mem, (Call.append calloc l d free).record s.mem s.appended⟩ := by
  rcases llistAppend_cases hrun with ⟨_, rfl, hnone⟩ | ⟨list, data, node, ll, rfl, rfl, hplace, hll⟩
  · rw [Call.record_append_of_none _ hnone]
    exact hr
  · have hlive : s.Live list := by simp [Live, hll]
    obtain ⟨ll', nodes, happend, hhas, hsame⟩ :=
      llistAppend_spec data free hll (hr.has list ll hll) hplace
    rw [happend] at hrun
    cases hrun
    simp only [Call.record, hplace]
    have hother : ∀ k, k ≠ list → s.Live k → ∀ n ∈ s.handles k,
        n ≠ node ∧ n ∉ s.handles list := by
      intro k hk hklive n hn
      constructor
      · rintro rfl
        exact hr.live_node hklive hn (calloc.fresh _ _ hplace)
      · exact hr.apart k list hklive hlive hk hn
    apply hr.update
    · intro k hk
      exact Heap.get_put_ne hk
    · intro ll₁ hll₁
      rw [Heap.get_put_self] at hll₁
      cases hll₁
      exact hhas
    · intro k hk hklive n hn
      obtain ⟨hnew, hout⟩ := hother k hk hklive n hn
      exact hsame n hnew hout
    · intro _ k hk hklive n hn hnk
      obtain ⟨hnew, hout⟩ := hother k hk hklive n hnk
      rw [List.map_append, List.mem_append] at hn
      rcases hn with hn | hn
      · exact hout hn
      · exact hnew (by simpa using hn)

/-- The nodes of a list are freed, and the list is empty or freed too. -/
theorem Represented.freed (hr : s.Represented) (hlive : s.Live list) {lists : Heap Llist}
    (data : Heap δ) (hothers : ∀ k, k ≠ list → lists.get k = s.mem.lists.get k)
    (hself : ∀ ll, lists.get list = some ll → ll = ⟨none, none⟩) :
    Represented ⟨⟨lists, s.mem.nodes.freeAll (s.handles list), data⟩,
      Function.update s.appended list []⟩ := by
  apply hr.update hothers
  · intro ll hll
    rw [hself ll hll]
    exact Llist.Has.nil _
  · intro k hk hklive n hn
    have hout : n ∉ s.handles list := hr.apart k list hklive hlive hk hn
    rw [Heap.get_freeAll, if_neg hout]
  · simp

theorem Represented.clear (hr : s.Represented) {l : Option Handle} {mem : Memory δ}
    (hrun : llistClear s.mem l = .ok mem) :
    Represented ⟨mem, (Call.clear l).record s.mem s.appended⟩ := by
  cases l with
  | none =>
    cases hrun
    exact hr
  | some list =>
    obtain ⟨hlive, data, rfl⟩ := llistClear_cases hrun (hr.has list)
    apply hr.freed hlive data
    · intro k hk
      exact Heap.get_put_ne hk
    · intro ll hll
      rw [Heap.get_put_self] at hll
      cases hll
      rfl

theorem Represented.destroy (hr : s.Represented) {listPtr rv : Option (Option Handle)}
    {mem : Memory δ} (hrun : llistDestroy s.mem listPtr = .ok (rv, mem)) :
    Represented ⟨mem, (Call.destroy listPtr).record s.mem s.appended⟩ := by
  rcases listPtr with _ | _ | list
  · cases hrun
    exact hr
  · cases hrun
    exact hr
  · obtain ⟨mem₁, hclear, hfree⟩ := seq_ok.mp hrun
    obtain ⟨hlive, data, rfl⟩ := llistClear_cases hclear (hr.has list)
    cases hfree
    apply hr.freed hlive data
    · intro k hk
      rw [Heap.get_free_ne hk, Heap.get_put_ne hk]
    · intro ll hll
      rw [Heap.get_free_self] at hll
      cases hll

/-- Every call keeps the lists as they are recorded. -/
theorem Represented.step (hr : s.Represented) {call : Call δ} (hstep : s.step call = .ok s') :
    s'.Represented := by
  obtain ⟨mem, hrun, hs'⟩ := seq_ok.mp hstep
  cases hs'
  cases call with
  | new calloc =>
    cases hrun
    exact hr.new calloc
  | append calloc l d free =>
    obtain ⟨⟨rv, mem⟩, happend, rfl⟩ := map_ok.mp hrun
    exact hr.append happend
  | clear l => exact hr.clear hrun
  | destroy listPtr =>
    obtain ⟨⟨rv, mem⟩, hdestroy, rfl⟩ := map_ok.mp hrun
    exact hr.destroy hdestroy
  | other data =>
    cases hrun
    exact ⟨hr.has, hr.apart⟩

/-- The data that the nodes of a list own can be freed, each of them once. -/
def Owns (s : Lists δ) (list : Handle) : Prop :=
  (ownedData (s.appended list)).Nodup ∧ ∀ p ∈ ownedData (s.appended list), s.mem.data.get p ≠ none

/-- The list of a call is live or NULL, and what it frees can be freed. -/
def Admits (s : Lists δ) : Call δ → Prop
  | .new _ => True
  | .other _ => True
  | .append _ list _ _ => ∀ l, list = some l → s.Live l
  | .clear list => ∀ l, list = some l → s.Live l ∧ s.Owns l
  | .destroy listPtr => ∀ l, listPtr = some (some l) → s.Live l ∧ s.Owns l

theorem Represented.clear_ok (hr : s.Represented) (hlive : s.Live list) (howns : s.Owns list) :
    ∃ mem, llistClear s.mem (some list) = .ok mem := by
  obtain ⟨ll, hll, hh⟩ := hr.of_live hlive
  rw [llistClear_eq hll hh, freeItems_ok howns.1 howns.2]
  exact ⟨_, rfl⟩

theorem Represented.append_ok (hr : s.Represented) (calloc : Heap.Calloc Llnode)
    {l : Option Handle} (d : Option Handle) (free : Bool)
    (hlive : ∀ list, l = some list → s.Live list) :
    ∃ r, llistAppend calloc s.mem l d free = .ok r := by
  cases l with
  | none => exact ⟨_, rfl⟩
  | some list =>
    cases d with
    | none => exact ⟨_, rfl⟩
    | some data =>
      cases hplace : calloc.place s.mem.nodes with
      | none => exact ⟨(-1, s.mem), by simp [llistAppend, hplace]⟩
      | some node =>
        obtain ⟨ll, hll, hh⟩ := hr.of_live (hlive list rfl)
        obtain ⟨_, _, happend, _⟩ := llistAppend_spec data free hll hh hplace
        exact ⟨_, happend⟩

/-- No call on a live list follows a NULL pointer or a stale one. -/
theorem Represented.step_ok (hr : s.Represented) {call : Call δ} (hadmits : s.Admits call) :
    ∃ s', s.step call = .ok s' := by
  apply exists_seq_ok.mpr
  have hrun : ∃ mem, call.run s.mem = .ok mem := by
    cases call with
    | new calloc => exact ⟨_, rfl⟩
    | append calloc l d free =>
      obtain ⟨r, happend⟩ := hr.append_ok calloc d free hadmits
      exact ⟨r.2, map_ok.mpr ⟨r, happend, rfl⟩⟩
    | clear l =>
      cases l with
      | none => exact ⟨_, rfl⟩
      | some list =>
        obtain ⟨hlive, howns⟩ := hadmits list rfl
        exact hr.clear_ok hlive howns
    | destroy listPtr =>
      rcases listPtr with _ | _ | list
      · exact ⟨_, rfl⟩
      · exact ⟨_, rfl⟩
      · obtain ⟨hlive, howns⟩ := hadmits list rfl
        obtain ⟨mem, hclear⟩ := hr.clear_ok hlive howns
        exact ⟨{ mem with lists := mem.lists.free list },
          map_ok.mpr ⟨_, seq_ok.mpr ⟨mem, hclear, rfl⟩, rfl⟩⟩
    | other data => exact ⟨_, rfl⟩
  obtain ⟨mem, hmem⟩ := hrun
  exact ⟨mem, hmem, _, rfl⟩

theorem Built.represented (h : s.Built) : s.Represented := by
  apply Reachable.invariant h
  · intro s hs
    constructor
    · intro list ll hll
      exact absurd (by simp [Live, hll]) (hs list)
    · intro list _ hlive
      exact absurd hlive (hs list)
  · intro s call s' hr _ hstep
    exact hr.step hstep

/-- `llist_get_index` returns the node that was appended with the index, or NULL if there is
none. -/
def Indexed (s : Lists δ) (list : Handle) (index : Int32) : Prop :=
  llistGetIndex s.mem (some list) index =
      .ok ((s.appended list)[index.toNatClampNeg]?.map Prod.fst) ∧
    ∀ x, (s.appended list)[index.toNatClampNeg]? = some x →
      ∃ node, s.mem.nodes.get x.1 = some node ∧ node.item = x.2

/-- `llist_foreach` runs its code on each of the nodes once, in the order in which they were
appended, and stops. -/
def Visited (s : Lists δ) (list : Handle) : Prop :=
  (s.handles list).Nodup ∧ ∀ (σ : Type) (code : Handle → σ → σ) (init : σ),
    llistForeach s.mem (some list) code init = .ok ((s.handles list).foldl (fun s n => code n s) init)

/-- The first node is found in any list, another index only in a list that is not empty. -/
theorem Represented.indexed_iff (hr : s.Represented) (hlive : s.Live list) {index : Int32}
    (hindex : 0 ≤ index) : s.Indexed list index ↔ s.appended list ≠ [] ∨ index = 0 := by
  obtain ⟨ll, hll, hh⟩ := hr.of_live hlive
  have hitems : ∀ x, (s.appended list)[index.toNatClampNeg]? = some x →
      ∃ node, s.mem.nodes.get x.1 = some node ∧ node.item = x.2 :=
    fun x hx => hh.chain.get_eq (List.mem_of_getElem? hx)
  constructor
  · intro h
    by_contra hnot
    rw [not_or, not_not] at hnot
    have hpos : 0 < index := Int32.lt_of_le_of_ne hindex (Ne.symm hnot.2)
    have hchain := hh.chain
    rw [hnot.1] at hchain
    have herror := llistGetIndex_of_nil hll hchain hpos
    rw [h.1] at herror
    cases herror
  · intro h
    refine ⟨?_, hitems⟩
    by_cases hnil : s.appended list = []
    · obtain rfl : index = 0 := h.resolve_left (not_not_intro hnil)
      exact llistGetIndex_zero hll hh.chain
    · exact llistGetIndex_of_ne_nil hll hh.chain hnil hindex

/-- All nodes are visited when an `int` can name each of them. -/
theorem Represented.visited_iff (hr : s.Represented) (hlive : s.Live list) :
    s.Visited list ↔ (s.appended list).length ≤ 2 ^ 31 := by
  obtain ⟨ll, hll, hh⟩ := hr.of_live hlive
  have hforeach : ∀ (σ : Type) (code : Handle → σ → σ) (init : σ),
      llistForeach s.mem (some list) code init =
        .ok (((s.handles list).take (2 ^ 31)).foldl (fun s n => code n s) init) := by
    intro σ code init
    rw [llistForeach_eq hll hh.chain, handles, ← List.map_take, List.foldl_map]
  constructor
  · intro h
    -- code that counts its runs
    have hcount := h.2 Nat (fun _ runs => runs + 1) 0
    rw [hforeach, Except.ok.injEq, List.foldl_add_const, List.foldl_add_const, List.length_take,
      handles, List.length_map] at hcount
    omega
  · intro h
    refine ⟨hh.nodup, ?_⟩
    intro σ code init
    rw [hforeach, List.take_of_length_le]
    rwa [handles, List.length_map]

/-- The values that the nodes of a list refer to. -/
def Contains (s : Lists δ) (list : Handle) (vs : List δ) : Prop :=
  (s.appended list).map (fun x => s.mem.data.get x.2.data) = vs.map some

/-- What a node refers to. -/
def valueAt (mem : Memory δ) (node : Handle) : Option δ :=
  (mem.nodes.get node).bind fun n => mem.data.get n.data

theorem Represented.map_valueAt (hr : s.Represented) (hlive : s.Live list) {vs : List δ}
    (hc : s.Contains list vs) : (s.handles list).map (valueAt s.mem) = vs.map some := by
  obtain ⟨ll, _, hh⟩ := hr.of_live hlive
  rw [← hc, handles, List.map_map]
  apply List.map_congr_left
  intro x hx
  obtain ⟨node, hget, hitem⟩ := hh.chain.get_eq hx
  rw [Function.comp_apply, valueAt, hget, ← hitem]
  rfl

/-- Code that reads the data of each node goes through the values of the list in order: what the
models of the callers take `llist_foreach` for. -/
theorem Represented.foreach_values (hr : s.Represented) (hlive : s.Live list) {vs : List δ}
    (hc : s.Contains list vs) (hlen : vs.length ≤ 2 ^ 31) {σ : Type} (f : σ → δ → σ) (init : σ) :
    llistForeach s.mem (some list) (fun n s₁ => (valueAt s.mem n).elim s₁ (f s₁)) init =
      .ok (vs.foldl f init) := by
  have hvalues := hr.map_valueAt hlive hc
  have hlength : (s.appended list).length = vs.length := by
    simpa [handles] using congrArg List.length hvalues
  have hvisited := (hr.visited_iff hlive).mpr (hlength ▸ hlen)
  rw [hvisited.2]
  congr 1
  calc (s.handles list).foldl (fun s₁ n => (valueAt s.mem n).elim s₁ (f s₁)) init
      = ((s.handles list).map (valueAt s.mem)).foldl (fun s₁ v => v.elim s₁ (f s₁)) init := by
        rw [List.foldl_map]
    _ = vs.foldl f init := by
        rw [hvalues, List.foldl_map]
        rfl

/-- `trans_get_index` on the list in memory, whose index is a `uint8_t`. -/
def transGetIndexAt (mem : Memory Message) (list : Option Handle) (index : UInt8) :
    Except Fault (Option Message) :=
  (llistGetIndex mem list (Int32.ofNat index.toNat)).map fun node => node.bind (valueAt mem)

/-- The list of messages of a transaction stands for the list in memory, as long as it is not
empty. -/
theorem Represented.transGetIndex {s : Lists Message} (hr : s.Represented) (hlive : s.Live list)
    {t : Transaction} (hc : s.Contains list t.messages) (hne : t.messages ≠ []) (index : UInt8) :
    transGetIndexAt s.mem (some list) index = .ok (transGetIndex t index) := by
  have hvalues := hr.map_valueAt hlive hc
  have hmap : (s.appended list).map (fun x => valueAt s.mem x.1) = t.messages.map some := by
    rw [← hvalues, handles, List.map_map]
    rfl
  have happended : s.appended list ≠ [] := by
    intro hnil
    rw [hnil] at hmap
    exact hne (by simpa using hmap.symm)
  have hint : (Int32.ofNat index.toNat).toInt = index.toNat := by
    apply Int32.toInt_ofNat_of_lt
    have := index.toNat_lt
    omega
  obtain ⟨hnonneg, hclamp⟩ := toNatClampNeg_of_toInt hint
  have hindexed := ((hr.indexed_iff hlive hnonneg).mpr (.inl happended)).1
  rw [hclamp] at hindexed
  rw [transGetIndexAt, hindexed, DHCPServer.transGetIndex]
  have hat := congrArg (fun vs => vs[index.toNat]?) hmap
  simp only [List.getElem?_map] at hat
  apply congrArg Except.ok
  calc ((s.appended list)[index.toNat]?.map Prod.fst).bind (valueAt s.mem)
      = ((s.appended list)[index.toNat]?.map fun x => valueAt s.mem x.1).join := by
        cases (s.appended list)[index.toNat]? <;> rfl
    _ = t.messages[index.toNat]? := by
        rw [hat]
        cases t.messages[index.toNat]? <;> rfl

/-- The loop of `trans_search_for_last` on the list in memory. -/
theorem Represented.transSearchForLast {s : Lists Message} (hr : s.Represented)
    (hlive : s.Live list) {t : Transaction} (hc : s.Contains list t.messages)
    (hlen : t.messages.length ≤ 2 ^ 31) (type : UInt32) :
    llistForeach s.mem (some list) (fun n last => (valueAt s.mem n).elim last fun m =>
        if m.type == type then some m else last) none =
      .ok (transSearchForLast t type) :=
  hr.foreach_values hlive hc hlen (fun last m => if m.type == type then some m else last) none

/-- In every state that the calls can lead to, a node of a list is found by its index unless the
list is empty and the index is not 0, and `llist_foreach` visits each node of a list that has not
more than an `int` can name. The calls themselves can be made in any order. -/
theorem indexing (h : s.Built) (hlive : s.Live list) :
    (∀ index : Int32, 0 ≤ index → (s.Indexed list index ↔ s.appended list ≠ [] ∨ index = 0)) ∧
      (s.Visited list ↔ (s.appended list).length ≤ 2 ^ 31) ∧
      ∀ call : Call δ, s.Admits call → ∃ s', s.step call = .ok s' :=
  ⟨fun _ hindex => h.represented.indexed_iff hlive hindex, h.represented.visited_iff hlive,
    fun _ hadmits => h.represented.step_ok hadmits⟩

/-- A memory with nothing in it. -/
def blank : Lists Unit := ⟨⟨⟨[]⟩, ⟨[]⟩, ⟨[]⟩⟩, fun _ => []⟩

theorem blank_initial (list : Handle) : ¬blank.Live list := by
  simp [blank, Live, Heap.get]

/-- Two nodes, none, and then two again. -/
def reuse : List (Call Unit) :=
  [.new .unbounded,
    .append .unbounded (some 1) (some 7) false, .append .unbounded (some 1) (some 8) false,
    .clear (some 1),
    .append .unbounded (some 1) (some 9) true, .append .unbounded (some 1) (some 7) false]

theorem indexing_reuse : ∃ s : Lists Unit,
    s.Built ∧ s.appended 1 = [(1, ⟨9, true⟩), (2, ⟨7, false⟩)] ∧
    (∀ index : Int32, 0 ≤ index → (s.Indexed 1 index ↔ s.appended 1 ≠ [] ∨ index = 0)) ∧
      (s.Visited 1 ↔ (s.appended 1).length ≤ 2 ^ 31) ∧
      ∀ call : Call Unit, s.Admits call → ∃ s', s.step call = .ok s' := by
  have hrun : ∃ s : Lists Unit, s.Built ∧ decide
      (s.Live 1 ∧ s.appended 1 = [(1, ⟨9, true⟩), (2, ⟨7, false⟩)]) = true :=
    Reachable.of_run (fun _ _ (_ : true = true) => trivial) reuse
      blank_initial (by decide +kernel)
  obtain ⟨s, hbuilt, hs⟩ := hrun
  obtain ⟨hlive, happended⟩ := of_decide_eq_true hs
  exact ⟨s, hbuilt, happended, indexing hbuilt hlive⟩

/-- The second node of a list that has just been made: `llist_get_index` follows NULL. -/
theorem indexing_empty : ∃ s : Lists Unit, blank.step (.new .unbounded) = .ok s ∧ s.Built ∧
    s.Live 1 ∧ llistGetIndex s.mem (some 1) 1 = .error .nullDeref ∧ ¬s.Indexed 1 1 := by
  have hbuilt : Built blank := .start blank_initial
  have herror : llistGetIndex (llistNew .unbounded blank.mem).2 (some 1) 1 = .error .nullDeref := by
    decide +kernel
  refine ⟨_, rfl, hbuilt.next (.new .unbounded) trivial rfl, by decide +kernel, herror, ?_⟩
  intro h
  exact absurd (herror.symm.trans h.1) (by simp)

end Lists

end DHCPServer
