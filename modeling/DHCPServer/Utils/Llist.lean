import DHCPServer.Framework.Chain
import DHCPServer.Framework.Loop

namespace DHCPServer

/-- `llnode_t`; `data` is never NULL, since `llist_append` takes none. -/
structure Llnode where
  data : Handle
  next : Option Handle
  free : Bool
  deriving DecidableEq

/-- `llist_t` -/
structure Llist where
  first : Option Handle
  last : Option Handle
  deriving DecidableEq

/-- The objects that the lists are made of: the `llist_t`s, their nodes, and what the data
pointers of the nodes refer to. -/
structure Memory (δ : Type) where
  lists : Heap Llist
  nodes : Heap Llnode
  data : Heap δ

variable {δ : Type}

/-- `calloc` leaves both pointers NULL. -/
def llistNew (calloc : Heap.Calloc Llist) (mem : Memory δ) : Option Handle × Memory δ :=
  match calloc.place mem.lists with
  | none => (none, mem)
  | some list => (some list, { mem with lists := mem.lists.put list ⟨none, none⟩ })

def llistAppend (calloc : Heap.Calloc Llnode) (mem : Memory δ) (list data : Option Handle)
    (freeData : Bool) : Except Fault (Int × Memory δ) :=
  match list, data with
  | some list, some data =>
    match calloc.place mem.nodes with
    | none => .ok (-1, mem)
    | some node => do
      let nodes := mem.nodes.put node ⟨data, none, freeData⟩
      let ll ← mem.lists.follow (some list)
      if ll.first = none then
        return (0, { mem with nodes := nodes, lists := mem.lists.put list ⟨some node, some node⟩ })
      else
        let last ← deref ll.last
        let lastNode ← nodes.follow (some last)
        return (0, { mem with
          nodes := nodes.put last { lastNode with next := some node }
          lists := mem.lists.put list { ll with last := some node } })
  | _, _ => .ok (-1, mem)

/-- `free(node->data)` for a node with its `free` set. -/
def freeData (data : Heap δ) (free : Bool) (p : Handle) : Except Fault (Heap δ) :=
  if free then data.release p else .ok data

/-- One pass of the loop of `llist_clear`. -/
def clearPass : Option Handle × Memory δ →
    Pass (Option Handle × Memory δ) (Except Fault (Memory δ))
  | (none, mem) => .done (.ok mem)
  | (some tmp, mem) =>
    let step : Except Fault (Option Handle × Memory δ) := do
      let node ← mem.nodes.follow (some tmp)
      let data ← freeData mem.data node.free node.data
      return (node.next, { mem with nodes := mem.nodes.free tmp, data := data })
    match step with
    | .ok s => .next s
    | .error f => .done (.error f)

/-- Each pass that comes back to the loop head has freed a node, so that there are not more of
them than live nodes. -/
def llistClear (mem : Memory δ) : Option Handle → Except Fault (Memory δ)
  | none => .ok mem
  | some list => do
    let ll ← mem.lists.follow (some list)
    let mem ← (Loop.run clearPass (mem.nodes.cells.length + 1) (ll.first, mem)).getD
      (.error .diverges)
    return { mem with lists := mem.lists.put list ⟨none, none⟩ }

/-- The argument is a pointer to the variable with the list; the result has what is in the
variable afterwards. -/
def llistDestroy (mem : Memory δ) (listPtr : Option (Option Handle)) :
    Except Fault (Option (Option Handle) × Memory δ) :=
  match listPtr with
  | some (some list) => do
    let mem ← llistClear mem (some list)
    return (some none, { mem with lists := mem.lists.free list })
  | _ => .ok (listPtr, mem)

/-- One pass of the loop of `llist_get_index`, with its `i` and `node`. -/
def getIndexPass (nodes : Heap Llnode) (index : Int32) :
    Int32 × Option Handle → Pass (Int32 × Option Handle) (Except Fault (Option Handle))
  | (i, node) =>
    if i < index then
      match nodes.follow node with
      | .error f => .done (.error f)
      | .ok n =>
        match n.next with
        | some next => .next (i + 1, some next)
        | none => .done (.ok none)
    else .done (.ok node)

def llistGetIndex (mem : Memory δ) (list : Option Handle) (index : Int32) :
    Except Fault (Option Handle) :=
  match list with
  | none => .ok none
  | some list =>
    if index < 0 then .ok none
    else do
      let ll ← mem.lists.follow (some list)
      (Loop.run (getIndexPass mem.nodes index) (index.toNatClampNeg + 1) (0, ll.first)).getD
        (.error .diverges)

/-- A `size_t` that is passed as an `int`, which keeps its low bits. -/
def sizeToInt (i : UInt64) : Int32 := i.toUInt32.toInt32

section Foreach

variable {σ : Type} (mem : Memory δ) (list : Option Handle) (code : Handle → σ → σ)

/-- One pass of the loop of `llist_foreach`, with its `_i` and `node`. `CODE` works on a state of
its own: it leaves the list as it is, and runs to its end. -/
def foreachPass : UInt64 × Option Handle × σ →
    Pass (UInt64 × Option Handle × σ) (Except Fault σ)
  | (_, none, s) => .done (.ok s)
  | (i, some node, s) =>
    let s := code node s
    match llistGetIndex mem list (sizeToInt (i + 1)) with
    | .ok node => .next (i + 1, node, s)
    | .error f => .done (.error f)

/-- The index that follows the largest `int` is passed as a negative one, so that this is the
last pass for any list. -/
def foreachPasses : Nat := 2 ^ 31 + 1

def llistForeach (s : σ) : Except Fault σ := do
  let node ← llistGetIndex mem list 0
  (Loop.run (foreachPass mem list code) foreachPasses (0, node, s)).getD (.error .diverges)

end Foreach

/-- What `llist_append` was given for a node. -/
structure Item where
  data : Handle
  free : Bool
  deriving DecidableEq

def Llnode.item (node : Llnode) : Item := ⟨node.data, node.free⟩

abbrev NodeChain (nodes : Heap Llnode) : Option Handle → List (Handle × Item) → Prop :=
  Chain Llnode.next Llnode.item nodes

/-- The list has these nodes, in this order. -/
structure Llist.Has (ll : Llist) (nodes : Heap Llnode) (xs : List (Handle × Item)) : Prop where
  chain : NodeChain nodes ll.first xs
  last : ll.last = xs.getLast?.map Prod.fst
  nodup : (xs.map Prod.fst).Nodup

/-- An `int` that is a natural number. -/
theorem toNatClampNeg_of_toInt {i : Int32} {n : Nat} (h : i.toInt = n) :
    0 ≤ i ∧ i.toNatClampNeg = n := by
  constructor
  · rw [Int32.le_iff_toInt_le, h, Int32.toInt_zero]
    omega
  · rw [← Int32.toNat_toInt, h, Int.toNat_natCast]

section GetIndex

variable {mem : Memory δ} {nodes : Heap Llnode} {p : Option Handle} {xs : List (Handle × Item)}
  {i index : Int32}

theorem toInt_succ_of_lt (h : i < index) : (i + 1).toInt = i.toInt + 1 := by
  have hi := Int32.lt_iff_toInt_lt.mp h
  have hlow := i.le_toInt
  have hhigh := index.toInt_lt
  rw [Int32.toInt_add, Int32.toInt_one]
  apply Int.bmod_eq_of_le <;> omega

theorem getIndexPass_of_not_lt (h : ¬i < index) :
    getIndexPass nodes index (i, p) = .done (.ok p) := by
  simp [getIndexPass, h]

/-- A pass on a node goes to the next one, or leaves the loop with NULL. -/
theorem getIndexPass_node {node : Llnode} {k : Handle} (h : i < index)
    (hget : nodes.get k = some node) :
    getIndexPass nodes index (i, some k) =
      if node.next = none then .done (.ok none) else .next (i + 1, node.next) := by
  simp only [getIndexPass, h, ↓reduceIte, Heap.follow_of_get hget]
  cases node.next <;> simp

/-- A pass with NULL follows it. -/
theorem getIndexPass_null (h : i < index) :
    getIndexPass nodes index (i, none) = .done (.error .nullDeref) := by
  simp [getIndexPass, h, Heap.follow]

/-- From a node with index `i` the loop goes on by `k` nodes, as long as there are any. -/
theorem run_getIndexPass (hc : NodeChain nodes p xs) (hne : xs ≠ []) {k : Nat}
    (hi : i.toInt + k = index.toInt) :
    Loop.run (getIndexPass nodes index) (k + 1) (i, p) = some (.ok (xs[k]?.map Prod.fst)) := by
  induction k generalizing i p xs with
  | zero =>
    have hout : ¬i < index := by
      rw [Int32.lt_iff_toInt_lt]
      omega
    rw [Loop.run_done (getIndexPass_of_not_lt hout), hc.head_eq, List.head?_eq_getElem?]
  | succ k ih =>
    have hlt : i < index := by
      rw [Int32.lt_iff_toInt_lt]
      omega
    obtain ⟨x, xs, rfl⟩ := List.exists_cons_of_ne_nil hne
    obtain ⟨node, rfl, _, hget, htail⟩ := hc.cons_inv
    have hpass := getIndexPass_node hlt hget
    by_cases hend : node.next = none
    · rw [if_pos hend] at hpass
      rw [Loop.run_done hpass, htail.eq_nil_iff.mpr hend]
      simp
    · rw [if_neg hend] at hpass
      rw [Loop.run_next hpass, List.getElem?_cons_succ]
      apply ih htail
      · exact fun hnil => hend (htail.eq_nil_iff.mp hnil)
      · rw [toInt_succ_of_lt hlt]
        omega

theorem toInt_eq_clamp (h : 0 ≤ index) : (0 : Int32).toInt + index.toNatClampNeg = index.toInt := by
  rw [Int32.toInt_zero, Int32.cast_toNatClampNeg index h, Int.zero_add]

variable {list : Handle} {ll : Llist}

theorem llistGetIndex_run (hlive : mem.lists.get list = some ll) (h : 0 ≤ index) :
    llistGetIndex mem (some list) index =
      (Loop.run (getIndexPass mem.nodes index) (index.toNatClampNeg + 1) (0, ll.first)).getD
        (.error .diverges) := by
  have hneg : ¬index < 0 := Int32.not_lt.mpr h
  simp [llistGetIndex, hneg, Heap.follow_of_get hlive, bind, Except.bind]

theorem llistGetIndex_of_neg (h : index < 0) : llistGetIndex mem (some list) index = .ok none := by
  simp [llistGetIndex, h]

/-- The node with the index, or NULL past the end, in a list that is not empty. -/
theorem llistGetIndex_of_ne_nil (hlive : mem.lists.get list = some ll)
    (hc : NodeChain mem.nodes ll.first xs) (hne : xs ≠ []) (h : 0 ≤ index) :
    llistGetIndex mem (some list) index = .ok (xs[index.toNatClampNeg]?.map Prod.fst) := by
  rw [llistGetIndex_run hlive h, run_getIndexPass hc hne (toInt_eq_clamp h)]
  rfl

/-- The first node of any list. -/
theorem llistGetIndex_zero (hlive : mem.lists.get list = some ll)
    (hc : NodeChain mem.nodes ll.first xs) :
    llistGetIndex mem (some list) 0 = .ok (xs[0]?.map Prod.fst) := by
  have hpass : getIndexPass mem.nodes 0 (0, ll.first) = .done (.ok ll.first) :=
    getIndexPass_of_not_lt Int32.lt_irrefl
  rw [llistGetIndex_run hlive (Int32.le_refl 0), Loop.run_done hpass, hc.head_eq,
    List.head?_eq_getElem?]
  rfl

/-- In an empty list the loop starts with NULL and follows it. -/
theorem llistGetIndex_of_nil (hlive : mem.lists.get list = some ll)
    (hc : NodeChain mem.nodes ll.first []) (h : 0 < index) :
    llistGetIndex mem (some list) index = .error .nullDeref := by
  have hnull : ll.first = none := hc.eq_nil_iff.mp rfl
  rw [llistGetIndex_run hlive (Int32.le_of_lt h), hnull, Loop.run_done (getIndexPass_null h)]
  rfl

end GetIndex

section Foreach

theorem toInt_sizeToInt (i : UInt64) : (sizeToInt i).toInt = (i.toNat : Int).bmod (2 ^ 32) := by
  rw [sizeToInt, ← Int32.toInt_toBitVec, UInt32.toBitVec_toInt32, BitVec.toInt_eq_toNat_bmod,
    UInt32.toNat_toBitVec, UInt64.toNat_toUInt32, Int.natCast_mod]
  exact Int.emod_bmod _ _

theorem toInt_sizeToInt_of_lt {i : UInt64} (h : i.toNat < 2 ^ 31) :
    (sizeToInt i).toInt = i.toNat := by
  rw [toInt_sizeToInt]
  apply Int.bmod_eq_of_le <;> omega

theorem sizeToInt_neg {i : UInt64} (h : i.toNat = 2 ^ 31) : sizeToInt i < 0 := by
  rw [Int32.lt_iff_toInt_lt, toInt_sizeToInt, h]
  decide

variable {mem : Memory δ} {list : Handle} {ll : Llist} {xs : List (Handle × Item)}

/-- What the macro gets with `_i`: the node with the index, up to the largest `int`. -/
theorem llistGetIndex_sizeToInt (hlive : mem.lists.get list = some ll)
    (hc : NodeChain mem.nodes ll.first xs) {i : UInt64} (hi : i.toNat ≤ (xs.take (2 ^ 31)).length) :
    llistGetIndex mem (some list) (sizeToInt i) =
      .ok ((xs.take (2 ^ 31))[i.toNat]?.map Prod.fst) := by
  rw [List.length_take] at hi
  by_cases hlt : i.toNat < 2 ^ 31
  · have hint := toInt_sizeToInt_of_lt hlt
    obtain ⟨hnonneg, hnat⟩ := toNatClampNeg_of_toInt hint
    rw [List.getElem?_take_of_lt hlt]
    by_cases hnil : xs = []
    · have hzero : i.toNat = 0 := by
        rw [hnil, List.length_nil] at hi
        omega
      have hindex : sizeToInt i = 0 := by
        rw [← Int32.toInt_inj, hint, hzero, Int32.toInt_zero]
        rfl
      rw [hindex, hzero]
      exact llistGetIndex_zero hlive hc
    · rw [← hnat]
      exact llistGetIndex_of_ne_nil hlive hc hnil hnonneg
  · have hlast : i.toNat = 2 ^ 31 := by omega
    rw [llistGetIndex_of_neg (sizeToInt_neg hlast), List.getElem?_eq_none]
    · rfl
    · rw [List.length_take]
      omega

variable {σ : Type} {code : Handle → σ → σ}

theorem foreachPass_node {i : UInt64} {node : Handle} {next : Option Handle} {s : σ}
    (hnext : llistGetIndex mem (some list) (sizeToInt (i + 1)) = .ok next) :
    foreachPass mem (some list) code (i, some node, s) = .next (i + 1, next, code node s) := by
  simp [foreachPass, hnext]

/-- From the node with index `i` the loop runs `CODE` on this node and each one behind it that an
`int` can name. -/
theorem run_foreachPass (hlive : mem.lists.get list = some ll)
    (hc : NodeChain mem.nodes ll.first xs) {k : Nat} {i : UInt64} {s : σ}
    (hi : i.toNat + k = (xs.take (2 ^ 31)).length) :
    Loop.run (foreachPass mem (some list) code) (k + 1)
        (i, (xs.take (2 ^ 31))[i.toNat]?.map Prod.fst, s) =
      some (.ok (((xs.take (2 ^ 31)).drop i.toNat).foldl (fun s x => code x.1 s) s)) := by
  induction k generalizing i s with
  | zero =>
    rw [List.getElem?_eq_none (by omega), List.drop_eq_nil_of_le (by omega)]
    exact Loop.run_done rfl 0
  | succ k ih =>
    have hlt : i.toNat < (xs.take (2 ^ 31)).length := by omega
    have hsucc : (i + 1).toNat = i.toNat + 1 := by
      rw [List.length_take] at hlt
      rw [UInt64.toNat_add, UInt64.toNat_one]
      omega
    have hnext := llistGetIndex_sizeToInt hlive hc (i := i + 1) (by omega)
    rw [List.getElem?_eq_getElem hlt, List.drop_eq_getElem_cons hlt, Option.map_some,
      Loop.run_next (foreachPass_node hnext), ih (by omega), List.foldl_cons, hsucc]

/-- `llist_foreach` stops, after `CODE` for the first `2 ^ 31` nodes at most. -/
theorem llistForeach_eq (hlive : mem.lists.get list = some ll)
    (hc : NodeChain mem.nodes ll.first xs) (s : σ) :
    llistForeach mem (some list) code s =
      .ok ((xs.take (2 ^ 31)).foldl (fun s x => code x.1 s) s) := by
  have hfirst : llistGetIndex mem (some list) 0 = .ok ((xs.take (2 ^ 31))[0]?.map Prod.fst) := by
    rw [llistGetIndex_zero hlive hc, List.getElem?_take_of_lt (by norm_num)]
  have hlen : (xs.take (2 ^ 31)).length + 1 ≤ foreachPasses := by
    rw [List.length_take, foreachPasses]
    omega
  have hrun : Loop.run (foreachPass mem (some list) code) foreachPasses
        (0, (xs.take (2 ^ 31))[0]?.map Prod.fst, s) =
      some (.ok ((xs.take (2 ^ 31)).foldl (fun s x => code x.1 s) s)) :=
    Loop.run_mono (run_foreachPass hlive hc (Nat.zero_add _)) hlen
  simp only [llistForeach, hfirst, bind, Except.bind, hrun, Option.getD_some]

end Foreach

section Clear

/-- The data of some nodes freed one after the other. -/
def freeItems (data : Heap δ) (xs : List (Handle × Item)) : Except Fault (Heap δ) :=
  xs.foldlM (fun data x => freeData data x.2.free x.2.data) data

/-- The data that some nodes own. -/
def ownedData (xs : List (Handle × Item)) : List Handle :=
  (xs.filter fun x => x.2.free).map fun x => x.2.data

theorem freeItems_cons (data : Heap δ) (x : Handle × Item) (xs : List (Handle × Item)) :
    freeItems data (x :: xs) =
      freeData data x.2.free x.2.data >>= fun data => freeItems data xs := by
  rw [freeItems, List.foldlM_cons]
  rfl

/-- Data that are there, and are not owned twice, can be freed. -/
theorem freeItems_ok {data : Heap δ} {xs : List (Handle × Item)} (hn : (ownedData xs).Nodup)
    (hlive : ∀ p ∈ ownedData xs, data.get p ≠ none) :
    freeItems data xs = .ok (data.freeAll (ownedData xs)) := by
  induction xs generalizing data with
  | nil => rfl
  | cons x xs ih =>
    rw [freeItems_cons]
    cases howns : x.2.free with
    | false =>
      have hsame : ownedData (x :: xs) = ownedData xs := by simp [ownedData, howns]
      rw [hsame] at hn hlive ⊢
      exact ih hn hlive
    | true =>
      have hcons : ownedData (x :: xs) = x.2.data :: ownedData xs := by simp [ownedData, howns]
      rw [hcons] at hn hlive ⊢
      rw [List.forall_mem_cons] at hlive
      obtain ⟨a, hget⟩ := Option.ne_none_iff_exists'.mp hlive.1
      have hfree : freeData data true x.2.data = .ok (data.free x.2.data) := by
        simp [freeData, Heap.release_of_get hget]
      rw [hfree]
      apply ih (List.nodup_cons.mp hn).2
      intro p hp
      have hne : p ≠ x.2.data := fun he => (List.nodup_cons.mp hn).1 (he ▸ hp)
      rw [Heap.get_free_ne hne]
      exact hlive.2 p hp

variable {mem : Memory δ} {list : Handle} {ll : Llist} {xs : List (Handle × Item)}

theorem clearPass_node {tmp : Handle} {node : Llnode} (hget : mem.nodes.get tmp = some node) :
    clearPass (some tmp, mem) =
      match freeData mem.data node.free node.data with
      | .ok data => .next (node.next, { mem with nodes := mem.nodes.free tmp, data := data })
      | .error f => .done (.error f) := by
  cases hfree : freeData mem.data node.free node.data <;>
    simp [clearPass, Heap.follow_of_get hget, hfree, bind, Except.bind, pure, Except.pure]

/-- The loop frees the data and the nodes of a chain. -/
theorem run_clearPass {p : Option Handle} (hc : NodeChain mem.nodes p xs)
    (hn : (xs.map Prod.fst).Nodup) :
    Loop.run clearPass (xs.length + 1) (p, mem) =
      some ((freeItems mem.data xs).map fun data =>
        { mem with nodes := mem.nodes.freeAll (xs.map Prod.fst), data := data }) := by
  induction xs generalizing p mem with
  | nil =>
    rw [hc.eq_nil_iff.mp rfl]
    exact Loop.run_done rfl 0
  | cons x xs ih =>
    obtain ⟨tmp, item⟩ := x
    obtain ⟨node, rfl, rfl, hget, htail⟩ := hc.cons_inv
    rw [List.map_cons, List.nodup_cons] at hn
    have hpass := clearPass_node hget
    rw [freeItems_cons]
    cases hfree : freeData mem.data node.free node.data with
    | error f =>
      rw [hfree] at hpass
      rw [Loop.run_done hpass]
      simp [Llnode.item, hfree, bind, Except.bind, Except.map]
    | ok data =>
      rw [hfree] at hpass
      have hrest : NodeChain (mem.nodes.free tmp) node.next xs := by
        apply htail.frame
        intro k hk
        apply Heap.get_free_ne
        rintro rfl
        exact hn.1 hk
      have hrun := @ih { mem with nodes := mem.nodes.free tmp, data := data } _ hrest hn.2
      rw [List.length_cons, Loop.run_next hpass, hrun]
      simp [Llnode.item, hfree, bind, Except.bind, Heap.freeAll]

/-- `llist_clear` frees the data and the nodes of a list, in the order of the list, and leaves it
empty. -/
theorem llistClear_eq (hlive : mem.lists.get list = some ll) (hh : ll.Has mem.nodes xs) :
    llistClear mem (some list) = (freeItems mem.data xs).map fun data =>
      ⟨mem.lists.put list ⟨none, none⟩, mem.nodes.freeAll (xs.map Prod.fst), data⟩ := by
  have hle := Heap.length_le_of_live hh.nodup hh.chain.live
  rw [List.length_map] at hle
  have hrun := Loop.run_mono (run_clearPass hh.chain hh.nodup) (Nat.succ_le_succ hle)
  simp only [llistClear, Heap.follow_of_get hlive, bind, Except.bind, hrun, Option.getD_some]
  cases freeItems mem.data xs <;> rfl

/-- What `llist_clear` leaves when it returns. -/
theorem llistClear_cases {mem' : Memory δ} (hrun : llistClear mem (some list) = .ok mem')
    (hh : ∀ ll, mem.lists.get list = some ll → ll.Has mem.nodes xs) :
    mem.lists.get list ≠ none ∧ ∃ data,
      mem' = ⟨mem.lists.put list ⟨none, none⟩, mem.nodes.freeAll (xs.map Prod.fst), data⟩ := by
  cases hll : mem.lists.get list with
  | none => simp [llistClear, Heap.follow, hll, bind, Except.bind] at hrun
  | some ll =>
    rw [llistClear_eq hll (hh ll hll)] at hrun
    obtain ⟨data, _, rfl⟩ := map_ok.mp hrun
    exact ⟨by simp, data, rfl⟩

end Clear

section Append

variable {mem : Memory δ} {list data node : Handle} {free : Bool} {ll : Llist}
  {xs : List (Handle × Item)} {calloc : Heap.Calloc Llnode}

theorem Llist.Has.nil (nodes : Heap Llnode) : (⟨none, none⟩ : Llist).Has nodes [] :=
  ⟨.nil, rfl, List.nodup_nil⟩

/-- A list depends on its own nodes only. -/
theorem Llist.Has.frame {nodes nodes' : Heap Llnode} (hh : ll.Has nodes xs)
    (hsame : ∀ k ∈ xs.map Prod.fst, nodes'.get k = nodes.get k) : ll.Has nodes' xs :=
  ⟨hh.chain.frame hsame, hh.last, hh.nodup⟩

theorem Llist.Has.not_mem_of_fresh {nodes : Heap Llnode} (hh : ll.Has nodes xs)
    (hfresh : nodes.get node = none) : node ∉ xs.map Prod.fst :=
  fun hmem => hh.chain.live node hmem hfresh

theorem Llist.Has.nodup_concat {nodes : Heap Llnode} (hh : ll.Has nodes xs)
    (hfresh : nodes.get node = none) (item : Item) :
    ((xs ++ [(node, item)]).map Prod.fst).Nodup := by
  rw [List.map_append]
  apply hh.nodup.append (List.nodup_singleton _)
  simpa using hh.not_mem_of_fresh hfresh

/-- The memory when the last node of a list has been linked to a new one. -/
def linkLast (nodes : Heap Llnode) (node last : Handle) (newNode lastNode : Llnode) : Heap Llnode :=
  (nodes.put node newNode).put last { lastNode with next := some node }

theorem get_linkLast_ne {nodes : Heap Llnode} {last k : Handle} {newNode lastNode : Llnode}
    (hk : k ≠ node) (hlast : k ≠ last) :
    (linkLast nodes node last newNode lastNode).get k = nodes.get k := by
  rw [linkLast, Heap.get_put_ne hlast, Heap.get_put_ne hk]

theorem Llist.Has.snoc {nodes : Heap Llnode} {last : Handle} {item : Item} {lastNode : Llnode}
    (hh : ll.Has nodes (xs ++ [(last, item)])) (hfresh : nodes.get node = none)
    (hitem : lastNode.item = item) :
    ({ ll with last := some node } : Llist).Has
      (linkLast nodes node last ⟨data, none, free⟩ lastNode)
      (xs ++ [(last, item)] ++ [(node, ⟨data, free⟩)]) := by
  have hnot : node ∉ xs.map Prod.fst ∧ node ≠ last := by
    simpa using hh.not_mem_of_fresh hfresh
  have hapart : last ∉ xs.map Prod.fst := by
    have hn := hh.nodup
    rw [List.map_append] at hn
    exact fun hmem => List.disjoint_of_nodup_append hn hmem (by simp)
  refine ⟨?_, by simp, hh.nodup_concat hfresh ⟨data, free⟩⟩
  have hold : ∀ k ∈ xs.map Prod.fst,
      (linkLast nodes node last ⟨data, none, free⟩ lastNode).get k = nodes.get k := by
    intro k hk
    apply get_linkLast_ne
    · rintro rfl
      exact hnot.1 hk
    · rintro rfl
      exact hapart hk
  have hnew : (linkLast nodes node last ⟨data, none, free⟩ lastNode).get node =
      some ⟨data, none, free⟩ := by
    rw [linkLast, Heap.get_put_ne hnot.2, Heap.get_put_self]
  exact hh.chain.snoc hold Heap.get_put_self hitem rfl hnew rfl

theorem llistAppend_first (hlive : mem.lists.get list = some ll) (hfirst : ll.first = none)
    (hplace : calloc.place mem.nodes = some node) :
    llistAppend calloc mem (some list) (some data) free =
      .ok (0, ⟨mem.lists.put list ⟨some node, some node⟩,
        mem.nodes.put node ⟨data, none, free⟩, mem.data⟩) := by
  simp [llistAppend, hplace, Heap.follow_of_get hlive, hfirst, bind, Except.bind, pure, Except.pure]

theorem llistAppend_last {last : Handle} {lastNode : Llnode}
    (hlive : mem.lists.get list = some ll) (hfirst : ll.first ≠ none) (hlast : ll.last = some last)
    (hget : mem.nodes.get last = some lastNode) (hplace : calloc.place mem.nodes = some node) :
    llistAppend calloc mem (some list) (some data) free =
      .ok (0, ⟨mem.lists.put list { ll with last := some node },
        linkLast mem.nodes node last ⟨data, none, free⟩ lastNode, mem.data⟩) := by
  have hne : last ≠ node := by
    rintro rfl
    rw [calloc.fresh _ _ hplace] at hget
    cases hget
  have hget' : (mem.nodes.put node ⟨data, none, free⟩).get last = some lastNode := by
    rw [Heap.get_put_ne hne, hget]
  simp only [llistAppend, hplace, Heap.follow_of_get hlive, hfirst, hlast, deref,
    Heap.follow_of_get hget', bind, Except.bind, pure, Except.pure, ↓reduceIte, linkLast]

/-- `llist_append` puts a new node behind the others, and changes no node of another list. -/
theorem llistAppend_spec (data : Handle) (free : Bool) (hlive : mem.lists.get list = some ll)
    (hh : ll.Has mem.nodes xs) (hplace : calloc.place mem.nodes = some node) :
    ∃ ll' nodes',
      llistAppend calloc mem (some list) (some data) free =
        .ok (0, ⟨mem.lists.put list ll', nodes', mem.data⟩) ∧
      ll'.Has nodes' (xs ++ [(node, ⟨data, free⟩)]) ∧
      ∀ k, k ≠ node → k ∉ xs.map Prod.fst → nodes'.get k = mem.nodes.get k := by
  have hfresh := calloc.fresh _ _ hplace
  rcases List.eq_nil_or_concat xs with rfl | ⟨ys, ⟨last, item⟩, rfl⟩
  · have hfirst : ll.first = none := hh.chain.eq_nil_iff.mp rfl
    refine ⟨_, _, llistAppend_first hlive hfirst hplace, ?_, ?_⟩
    · exact ⟨.cons Heap.get_put_self .nil, rfl, hh.nodup_concat hfresh _⟩
    · intro k hk _
      exact Heap.get_put_ne hk
  · rw [List.concat_eq_append] at hh ⊢
    have hfirst : ll.first ≠ none := by
      rw [ne_eq, ← hh.chain.eq_nil_iff]
      simp
    have hlast : ll.last = some last := by simp [hh.last]
    obtain ⟨lastNode, hget, hitem⟩ := hh.chain.get_eq (List.mem_append_right ys List.mem_cons_self)
    refine ⟨_, _, llistAppend_last hlive hfirst hlast hget hplace, hh.snoc hfresh hitem, ?_⟩
    intro k hk hout
    apply get_linkLast_ne hk
    rintro rfl
    exact hout (by simp)

/-- What `llist_append` needs to succeed; otherwise it says so and changes nothing. -/
theorem llistAppend_cases {list data : Option Handle} {rv : Int} {mem' : Memory δ}
    (hrun : llistAppend calloc mem list data free = .ok (rv, mem')) :
    (rv = -1 ∧ mem' = mem ∧ (list = none ∨ data = none ∨ calloc.place mem.nodes = none)) ∨
      ∃ l d node ll, list = some l ∧ data = some d ∧ calloc.place mem.nodes = some node ∧
        mem.lists.get l = some ll := by
  cases list with
  | none =>
    cases hrun
    exact .inl ⟨rfl, rfl, .inl rfl⟩
  | some l =>
    cases data with
    | none =>
      cases hrun
      exact .inl ⟨rfl, rfl, .inr (.inl rfl)⟩
    | some d =>
      cases hplace : calloc.place mem.nodes with
      | none =>
        simp only [llistAppend, hplace] at hrun
        cases hrun
        exact .inl ⟨rfl, rfl, .inr (.inr rfl)⟩
      | some node =>
        cases hll : mem.lists.get l with
        | none => simp [llistAppend, hplace, Heap.follow, hll, bind, Except.bind] at hrun
        | some ll => exact .inr ⟨l, d, node, ll, rfl, rfl, rfl, hll⟩

end Append

end DHCPServer
