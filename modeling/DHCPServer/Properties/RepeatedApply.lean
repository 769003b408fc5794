import DHCPServer.Gui.Applies
import DHCPServer.Properties.GuiServer

namespace DHCPServer

/-- The value that the widget of an entry shows; the text of a number has to be one. -/
def ConfEntry.shown (e : ConfEntry) : Except GuiError Json :=
  match e.type with
  | .string | .ip => .ok (.string e.val)
  | .numeric => do
    let n ← stoi e.val
    return .number (n : Rat)
  | .boolean => .ok (.bool (decide (e.valI ≠ 0)))

/-- All entries show values. -/
def AllShown (es : List ConfEntry) : Prop := ∀ e ∈ es, ∃ w, e.shown = .ok w

/-- The section has the values of the entries under their keys. -/
def HoldsValues (es : List ConfEntry) (server : Option JsonNode) : Prop :=
  ∃ n, server = some n ∧ ∀ e ∈ es, ∃ w, e.shown = .ok w ∧ n.getItem e.jsonPath = some w

/-- Every Apply among the actions comes to its end, and `P` holds of it: of the entries `es` as
they have been loaded and edited, and of the tab before and after it. -/
def EveryApply (P : List ConfEntry → ServerTab → ServerTab → Prop) :
    List ConfEntry → ServerTab → List TabAction → Prop
  | _, _, [] => True
  | es, s, .apply :: as =>
    ∃ ok s', s.applySettings = .ok (ok, s') ∧ P es s s' ∧ EveryApply P es s' as
  | es, s, a :: as => EveryApply P (a.edit es) ⟨s.server, a.edit s.entries⟩ as

/-- The loaded and edited entries at each Apply. -/
def entriesAtApplies : List ConfEntry → List TabAction → List (List ConfEntry)
  | _, [] => []
  | es, .apply :: as => es :: entriesAtApplies es as
  | es, a :: as => entriesAtApplies (a.edit es) as

/-- The text of the first entry, which is the interface. -/
def interfaceText (es : List ConfEntry) : Option CString := es.head?.map ConfEntry.val

/-- What an edit leaves alone of an entry. -/
def ConfEntry.kind (e : ConfEntry) : CString × ConfType := (e.jsonPath, e.type)

def serverKinds : List (CString × ConfType) := serverEntries.map ConfEntry.kind

theorem serverKinds_apart : ∀ k ∈ serverKinds, ∀ l ∈ serverKinds,
    k = l ∨ Json.sameKey k.1 l.1 = false := by
  decide

/-- The section has a value of the right type under the key of each server entry. -/
def ServerReady (n : JsonNode) : Prop :=
  ∀ k ∈ serverKinds, ∃ v, n.getItem k.1 = some v ∧ k.2.Fits v

section Entries

variable {n : JsonNode} {e x : ConfEntry} {es rest : List ConfEntry} {v w : Json}

/-- Over a value of its type an entry writes what it shows. -/
theorem ConfEntry.written_eq_shown (h : e.type.Fits v) : e.written v = e.shown := by
  unfold ConfType.Fits at h
  unfold ConfEntry.written ConfEntry.shown
  cases ht : e.type with
  | string | ip | numeric | boolean =>
    rw [ht] at h
    obtain ⟨_, rfl⟩ := h
    rfl

theorem ConfEntry.shown_fits (h : e.shown = .ok w) : e.type.Fits w := by
  unfold ConfEntry.shown at h
  unfold ConfType.Fits
  cases ht : e.type with
  | string | ip | boolean =>
    rw [ht] at h
    exact ⟨_, (Except.ok.inj h).symm⟩
  | numeric =>
    rw [ht] at h
    obtain ⟨k, -, hw⟩ := seq_ok.mp h
    exact ⟨_, (Except.ok.inj hw).symm⟩

theorem ServerReady.modify (h : ServerReady n) (hk : e.kind ∈ serverKinds) (hw : e.type.Fits w) :
    ServerReady (n.modifyItem e.jsonPath fun _ => w) := by
  intro k hmem
  obtain ⟨v, hv, hfits⟩ := h k hmem
  rcases serverKinds_apart e.kind hk k hmem with rfl | hne
  · refine ⟨w, ?_, hw⟩
    have hold : n.getItem e.jsonPath = some v := hv
    show (n.modifyItem e.jsonPath fun _ => w).getItem e.jsonPath = some w
    rw [JsonNode.getItem_modify_self, hold]
    rfl
  · have hkeep := JsonNode.getItem_modify_ne (n := n) (f := fun _ => w)
      (show Json.sameKey e.jsonPath k.1 = false from hne)
    exact ⟨v, hkeep.trans hv, hfits⟩

/-- Entries that show values can be applied one after the other, also where two have one key. -/
theorem applyEntries_ready (h : ServerReady n) (hk : ∀ e ∈ es, e.kind ∈ serverKinds)
    (hshown : AllShown es) : ∃ n', applyEntries (some n) es = .ok (some n') ∧ ServerReady n' := by
  induction es generalizing n with
  | nil => exact ⟨n, rfl, h⟩
  | cons e es ih =>
    have hkind := hk e List.mem_cons_self
    obtain ⟨v, hv, hfits⟩ : ∃ v, n.getItem e.jsonPath = some v ∧ e.type.Fits v := h _ hkind
    obtain ⟨w, hw⟩ := hshown e List.mem_cons_self
    have hstep := (applyEntry_found hv).mpr ⟨w, by rw [ConfEntry.written_eq_shown hfits, hw], rfl⟩
    have hready := h.modify hkind (ConfEntry.shown_fits hw)
    obtain ⟨n', hrest, hready'⟩ := ih hready (fun a ha => hk a (List.mem_cons_of_mem _ ha))
      fun a ha => hshown a (List.mem_cons_of_mem _ ha)
    exact ⟨n', seq_ok.mpr ⟨_, hstep, hrest⟩, hready'⟩

/-- Applying distinct entries leaves their values under their keys and the rest as it was. -/
theorem applyEntries_values {server : Option JsonNode} (h : ServerReady n)
    (hk : ∀ e ∈ es, e.kind ∈ serverKinds) (hd : DistinctPaths es)
    (happly : applyEntries (some n) es = .ok server) :
    HoldsValues es server ∧ ∃ n', server = some n' ∧
      ∀ key, (∀ e ∈ es, Json.sameKey e.jsonPath key = false) → n'.getItem key = n.getItem key := by
  have hfound : ∀ e ∈ es, (n.getItem e.jsonPath).isSome := by
    intro e he
    obtain ⟨v, hv, -⟩ : ∃ v, n.getItem e.jsonPath = some v ∧ e.type.Fits v := h _ (hk e he)
    rw [hv]
    rfl
  obtain ⟨n', rfl, -, happlied, hframe⟩ := applyEntries_some hd hfound happly
  refine ⟨⟨n', rfl, ?_⟩, n', rfl, hframe⟩
  intro e he
  obtain ⟨v, hv, hfits⟩ : ∃ v, n.getItem e.jsonPath = some v ∧ e.type.Fits v := h _ (hk e he)
  obtain ⟨v', w, hv', hw, hw'⟩ := happlied e he
  obtain rfl := Option.some.inj (hv.symm.trans hv')
  exact ⟨w, by rw [← ConfEntry.written_eq_shown hfits, hw], hw'⟩

end Entries

section Edit

variable {a : TabAction} {es es' : List ConfEntry}

theorem map_kind_modify {f : ConfEntry → ConfEntry} (hf : ∀ e, (f e).kind = e.kind) (i : Nat) :
    (es.modify i f).map ConfEntry.kind = es.map ConfEntry.kind := by
  induction es generalizing i with
  | nil => simp
  | cons e es ih =>
    cases i with
    | zero => simp [hf]
    | succ i => simp [ih]

/-- Edits change values only. -/
theorem kinds_edit (a : TabAction) (es : List ConfEntry) :
    (a.edit es).map ConfEntry.kind = es.map ConfEntry.kind := by
  cases a with
  | input i text =>
    apply map_kind_modify
    intro e
    rfl
  | toggle index =>
    apply map_kind_modify
    intro e
    rfl
  | apply => rfl

theorem tail_modify_congr {f : ConfEntry → ConfEntry} (h : es.tail = es'.tail) (i : Nat) :
    (es.modify i f).tail = (es'.modify i f).tail := by
  have hzero : ∀ es : List ConfEntry, (es.modify 0 f).tail = es.tail := by
    intro es
    cases es <;> simp
  have hsucc : ∀ (es : List ConfEntry) (i : Nat),
      (es.modify (i + 1) f).tail = es.tail.modify i f := by
    intro es i
    cases es <;> simp
  cases i with
  | zero => rw [hzero, hzero, h]
  | succ i => rw [hsucc, hsucc, h]

/-- What an edit makes of the entries behind the first one depends on these only. -/
theorem tail_edit (a : TabAction) (h : es.tail = es'.tail) :
    (a.edit es).tail = (a.edit es').tail := by
  cases a with
  | input i text => exact tail_modify_congr h _
  | toggle index => exact tail_modify_congr h _
  | apply => exact h

end Edit

section Tab

variable {s : ServerTab} {es : List ConfEntry} {text : CString}

/-- Before the first Apply the tab has the entries as they have been loaded and edited. -/
structure Fresh (es : List ConfEntry) (s : ServerTab) : Prop where
  server : ∃ n, s.server = some n ∧ ServerReady n
  entries : s.entries = es
  kinds : es.map ConfEntry.kind = serverKinds

/-- After it the first entry is another one for the database, and the section has the interface of
that Apply. -/
structure Stale (es : List ConfEntry) (s : ServerTab) (text : CString) : Prop where
  server : ∃ n, s.server = some n ∧ ServerReady n ∧
    n.getItem interfaceEntry.jsonPath = some (.string text)
  entries : ∃ x rest, s.entries = x :: rest ∧ x.kind = dbEnableEntry.kind ∧ rest = es.tail
  kinds : es.map ConfEntry.kind = serverKinds

theorem Fresh.edit (h : Fresh es s) (a : TabAction) :
    Fresh (a.edit es) ⟨s.server, a.edit s.entries⟩ where
  server := h.server
  entries := by rw [h.entries]
  kinds := by rw [kinds_edit, h.kinds]

theorem Stale.edit (h : Stale es s text) (a : TabAction) :
    Stale (a.edit es) ⟨s.server, a.edit s.entries⟩ text where
  server := h.server
  entries := by
    obtain ⟨x, rest, hentries, hx, hrest⟩ := h.entries
    have hkinds := kinds_edit a s.entries
    have htail : (a.edit s.entries).tail = (a.edit es).tail :=
      tail_edit a (by rw [hentries, hrest]; rfl)
    cases hedit : a.edit s.entries with
    | nil =>
      rw [hedit, hentries] at hkinds
      cases hkinds
    | cons x' rest' =>
      rw [hedit, hentries, List.map_cons, List.map_cons] at hkinds
      rw [hedit] at htail
      exact ⟨x', rest', rfl, (List.cons.inj hkinds).1.trans hx, htail⟩
  kinds := by rw [kinds_edit, h.kinds]

/-- The first entry is the interface, and the last one behind it is for the database. -/
theorem entries_of_kinds (h : es.map ConfEntry.kind = serverKinds) :
    ∃ i rest last, es = i :: rest ∧ i.kind = interfaceEntry.kind ∧ rest.length = confDbEnable ∧
      rest.getLast? = some last ∧ last.kind = dbEnableEntry.kind := by
  cases es with
  | nil => cases h
  | cons i rest =>
    obtain ⟨hi, hrest⟩ := List.cons.inj h
    have hlength := congrArg List.length hrest
    rw [List.length_map] at hlength
    have hlast := congrArg List.getLast? hrest
    rw [List.getLast?_map] at hlast
    obtain ⟨last, hfound, hkind⟩ := Option.map_eq_some_iff.mp
      (hlast.trans (show _ = some dbEnableEntry.kind from rfl))
    exact ⟨i, rest, last, rfl, hi, hlength, hfound, hkind⟩

theorem mem_kinds (h : es.map ConfEntry.kind = serverKinds) : ∀ e ∈ es, e.kind ∈ serverKinds :=
  fun _ he => h ▸ List.mem_map_of_mem he

theorem distinct_of_kinds (h : es.map ConfEntry.kind = serverKinds) : DistinctPaths es := by
  apply serverEntries_distinct.of_paths
  have hpaths := congrArg (List.map Prod.fst) h
  rw [serverKinds, List.map_map, List.map_map] at hpaths
  exact hpaths

/-- The interface is written as its text. -/
theorem interface_shown {i : ConfEntry} (h : i.kind = interfaceEntry.kind) :
    i.jsonPath = interfaceEntry.jsonPath ∧ i.shown = .ok (.string i.val) := by
  obtain ⟨hpath, htype⟩ := Prod.mk.inj h
  refine ⟨hpath, ?_⟩
  rw [ConfEntry.shown, htype]
  rfl

/-- The first Apply leaves the values in the section, and another entry in front. -/
theorem Fresh.apply (h : Fresh es s) (hshown : AllShown es) :
    ∃ s' text, s.applySettings = .ok (true, s') ∧ interfaceText es = some text ∧
      Stale es s' text ∧ HoldsValues es s'.server ∧ s'.entries ≠ s.entries := by
  obtain ⟨⟨n, hserver, hready⟩, hentries, hkinds⟩ := h
  obtain ⟨n', happly, hready'⟩ := applyEntries_ready hready (mem_kinds hkinds) hshown
  obtain ⟨hvalues, -⟩ := applyEntries_values hready (mem_kinds hkinds)
    (distinct_of_kinds hkinds) happly
  obtain ⟨i, rest, last, rfl, hi, hlength, hfound, hlast⟩ := entries_of_kinds hkinds
  have hrun := applySettings_ok hlength happly
  rw [hfound, Option.getD_some] at hrun
  have htext : n'.getItem interfaceEntry.jsonPath = some (.string i.val) := by
    obtain ⟨_, hn, hall⟩ := hvalues
    obtain rfl := Option.some.inj hn
    obtain ⟨w, hw, hitem⟩ := hall i List.mem_cons_self
    obtain ⟨hpath, hstring⟩ := interface_shown hi
    rw [← hpath, hitem, ← Except.ok.inj (hstring.symm.trans hw)]
  refine ⟨_, i.val, by rw [← hrun, ← hserver, ← hentries], rfl,
    ⟨⟨n', rfl, hready', htext⟩, ⟨last, rest, rfl, hlast, rfl⟩, hkinds⟩, hvalues, ?_⟩
  rw [hentries]
  intro hsame
  have hpath : last.kind = i.kind := congrArg ConfEntry.kind (List.cons.inj hsame).1
  rw [hlast, hi] at hpath
  exact absurd hpath (by decide)

theorem interface_apart : ∀ k ∈ serverKinds.tail,
    Json.sameKey k.1 interfaceEntry.jsonPath = false := by
  decide

/-- With a second entry for the database in the place of the interface, the values of the others
are written and the interface stays. -/
theorem applyEntries_stale {n : JsonNode} {x i : ConfEntry} {rest : List ConfEntry}
    (hready : ServerReady n) (hx : x.kind = dbEnableEntry.kind)
    (hkinds : (i :: rest).map ConfEntry.kind = serverKinds) (hshown : AllShown rest) :
    ∃ n', applyEntries (some n) (x :: rest) = .ok (some n') ∧ ServerReady n' ∧
      HoldsValues rest (some n') ∧
      n'.getItem interfaceEntry.jsonPath = n.getItem interfaceEntry.jsonPath := by
  have htail : ∀ e ∈ x :: rest, e.kind ∈ serverKinds.tail := by
    intro e he
    rcases List.mem_cons.mp he with rfl | he
    · rw [hx]
      decide
    · rw [← hkinds]
      exact List.mem_map_of_mem he
  have hmem : ∀ e ∈ x :: rest, e.kind ∈ serverKinds := fun e he =>
    List.mem_of_mem_tail (htail e he)
  have happart : ∀ e ∈ x :: rest, Json.sameKey e.jsonPath interfaceEntry.jsonPath = false :=
    fun e he => interface_apart e.kind (htail e he)
  have hxshown : AllShown [x] := by
    intro e he
    obtain rfl := List.mem_singleton.mp he
    have htype : e.type = .boolean := (Prod.mk.inj hx).2
    exact ⟨.bool (decide (e.valI ≠ 0)), by rw [ConfEntry.shown, htype]⟩
  have hxmem : ∀ e ∈ [x], e ∈ x :: rest := fun e he => List.mem_of_mem_head? (by
    rw [List.mem_singleton.mp he]
    rfl)
  -- the pass over the entry in front
  obtain ⟨n₁, hfirst, hready₁⟩ :=
    applyEntries_ready hready (fun e he => hmem e (hxmem e he)) hxshown
  obtain ⟨-, _, hn₁, hframe₁⟩ := applyEntries_values hready
    (fun e he => hmem e (hxmem e he)) (List.pairwise_singleton _ x) hfirst
  obtain rfl := Option.some.inj hn₁
  -- the others, which are distinct
  have hrest : ∀ e ∈ rest, e ∈ x :: rest := fun e he => List.mem_cons_of_mem x he
  have hdistinct : DistinctPaths rest := (List.pairwise_cons.mp (distinct_of_kinds hkinds)).2
  obtain ⟨n', hothers, hready'⟩ :=
    applyEntries_ready hready₁ (fun e he => hmem e (hrest e he)) hshown
  obtain ⟨hvalues, _, hn', hframe⟩ := applyEntries_values hready₁
    (fun e he => hmem e (hrest e he)) hdistinct hothers
  obtain rfl := Option.some.inj hn'
  obtain ⟨server₁, hstep, hnil⟩ := seq_ok.mp hfirst
  obtain rfl := Except.ok.inj hnil
  refine ⟨n', seq_ok.mpr ⟨_, hstep, hothers⟩, hready', hvalues, ?_⟩
  rw [hframe _ fun e he => happart e (hrest e he), hframe₁ _ fun e he => happart e (hxmem e he)]

/-- A later Apply does not write the interface, and leaves the values of the other entries. -/
theorem Stale.apply (h : Stale es s text) (hshown : AllShown es) :
    ∃ s', s.applySettings = .ok (true, s') ∧ Stale es s' text ∧
      (HoldsValues es s'.server ↔ interfaceText es = some text) := by
  obtain ⟨⟨n, hserver, hready, hstored⟩, ⟨x, _, hentries, hx, rfl⟩, hkinds⟩ := h
  obtain ⟨i, rest, last, rfl, hi, hlength, hfound, hlast⟩ := entries_of_kinds hkinds
  rw [List.tail_cons] at hentries
  obtain ⟨n', happly, hready', ⟨_, hn', hvalues⟩, hkept⟩ := applyEntries_stale hready hx hkinds
    fun e he => hshown e (List.mem_cons_of_mem _ he)
  obtain rfl := Option.some.inj hn'
  rw [hstored] at hkept
  obtain ⟨hpath, hstring⟩ := interface_shown hi
  have hrun := applySettings_ok hlength happly
  rw [hfound, Option.getD_some] at hrun
  refine ⟨_, by rw [← hrun, ← hserver, ← hentries],
    ⟨⟨n', rfl, hready', hkept⟩, ⟨last, rest, rfl, hlast, rfl⟩, hkinds⟩, ?_⟩
  constructor
  · rintro ⟨_, hn, hall⟩
    obtain rfl := Option.some.inj hn
    obtain ⟨w, hw, hitem⟩ := hall i List.mem_cons_self
    rw [hpath, hkept] at hitem
    obtain rfl := Option.some.inj hitem
    rw [hstring] at hw
    exact congrArg some (Json.string.inj (Except.ok.inj hw))
  · intro htext
    obtain rfl : i.val = text := Option.some.inj htext
    refine ⟨n', rfl, ?_⟩
    intro e he
    rcases List.mem_cons.mp he with rfl | he
    · exact ⟨_, hstring, by rw [hpath, hkept]⟩
    · exact hvalues e he

end Tab

/-- The section has the values of the entries after every Apply. -/
def WritesValues (es : List ConfEntry) (_ s' : ServerTab) : Prop := HoldsValues es s'.server

/-- It does, and the list of entries is the same before and after. -/
def WritesOnly (es : List ConfEntry) (s s' : ServerTab) : Prop :=
  HoldsValues es s'.server ∧ s'.entries = s.entries

section Runs

variable {P : List ConfEntry → ServerTab → ServerTab → Prop} {s : ServerTab} {es : List ConfEntry}
  {text : CString} {as : List TabAction}

theorem everyApply_edit {a : TabAction} (ha : a ≠ .apply) :
    EveryApply P es s (a :: as) ↔ EveryApply P (a.edit es) ⟨s.server, a.edit s.entries⟩ as := by
  cases a with
  | input i text => rfl
  | toggle index => rfl
  | apply => exact absurd rfl ha

theorem entriesAtApplies_edit {a : TabAction} (ha : a ≠ .apply) :
    entriesAtApplies es (a :: as) = entriesAtApplies (a.edit es) as := by
  cases a with
  | input i text => rfl
  | toggle index => rfl
  | apply => exact absurd rfl ha

theorem applied_unique {ok ok' : Bool} {s₁ s₂ : ServerTab} (h : s.applySettings = .ok (ok, s₁))
    (h' : s.applySettings = .ok (ok', s₂)) : s₁ = s₂ :=
  (Prod.mk.inj (Except.ok.inj (h.symm.trans h'))).2

theorem everyApply_of_notMem (h : .apply ∉ as) : EveryApply P es s as := by
  induction as generalizing es s with
  | nil => trivial
  | cons a as ih =>
    have hne : a ≠ .apply := (List.ne_of_not_mem_cons h).symm
    exact (everyApply_edit hne).mpr (ih (List.not_mem_of_not_mem_cons h))

theorem HoldsValues.allShown {server : Option JsonNode} (h : HoldsValues es server) :
    AllShown es := by
  obtain ⟨n, -, hall⟩ := h
  intro e he
  obtain ⟨w, hw, -⟩ := hall e he
  exact ⟨w, hw⟩

/-- After the first Apply the values are written as long as the interface stays as it was then. -/
theorem Stale.every (h : Stale es s text) :
    EveryApply WritesValues es s as ↔
      ∀ es' ∈ entriesAtApplies es as, AllShown es' ∧ interfaceText es' = some text := by
  induction as generalizing es s with
  | nil => exact ⟨fun _ es' he => absurd he List.not_mem_nil, fun _ => trivial⟩
  | cons a as ih =>
    by_cases ha : a = .apply
    · subst ha
      rw [entriesAtApplies, List.forall_mem_cons, EveryApply]
      constructor
      · rintro ⟨ok, s', happly, hvalues, hrest⟩
        obtain ⟨s'', happly', hstale, hiff⟩ := h.apply hvalues.allShown
        obtain rfl := applied_unique happly happly'
        exact ⟨⟨hvalues.allShown, hiff.mp hvalues⟩, (ih hstale).mp hrest⟩
      · rintro ⟨⟨hshown, htext⟩, hrest⟩
        obtain ⟨s', happly, hstale, hiff⟩ := h.apply hshown
        exact ⟨true, s', happly, hiff.mpr htext, (ih hstale).mpr hrest⟩
    · rw [everyApply_edit ha, entriesAtApplies_edit ha]
      exact ih (h.edit a)

/-- From the load on they are written as long as every Apply has the interface of the first. -/
theorem Fresh.every (h : Fresh es s) :
    EveryApply WritesValues es s as ↔
      ∀ es' ∈ entriesAtApplies es as, AllShown es' ∧
        ∀ es'' ∈ entriesAtApplies es as, interfaceText es'' = interfaceText es' := by
  induction as generalizing es s with
  | nil => exact ⟨fun _ es' he => absurd he List.not_mem_nil, fun _ => trivial⟩
  | cons a as ih =>
    by_cases ha : a = .apply
    · subst ha
      rw [entriesAtApplies, EveryApply]
      constructor
      · rintro ⟨ok, s', happly, hvalues, hrest⟩
        obtain ⟨s'', text, happly', htext, hstale, -⟩ := h.apply hvalues.allShown
        obtain rfl := applied_unique happly happly'
        have hall : ∀ es' ∈ es :: entriesAtApplies es as,
            AllShown es' ∧ interfaceText es' = some text :=
          List.forall_mem_cons.mpr ⟨⟨hvalues.allShown, htext⟩, hstale.every.mp hrest⟩
        intro es' he'
        refine ⟨(hall es' he').1, ?_⟩
        intro es'' he''
        rw [(hall es' he').2, (hall es'' he'').2]
      · intro hall
        obtain ⟨hshown, hsame⟩ := hall es List.mem_cons_self
        obtain ⟨s', text, happly, htext, hstale, hvalues, -⟩ := h.apply hshown
        refine ⟨true, s', happly, hvalues, hstale.every.mpr ?_⟩
        intro es' he'
        have hmem := List.mem_cons_of_mem es he'
        exact ⟨(hall es' hmem).1, (hsame es' hmem).trans htext⟩
    · rw [everyApply_edit ha, entriesAtApplies_edit ha]
      exact ih (h.edit a)

/-- No Apply leaves the entries as they were and writes their values. -/
theorem Fresh.no_apply (h : Fresh es s) (hall : EveryApply WritesOnly es s as) : .apply ∉ as := by
  induction as generalizing es s with
  | nil => exact List.not_mem_nil
  | cons a as ih =>
    by_cases ha : a = .apply
    · subst ha
      obtain ⟨ok, s', happly, ⟨hvalues, hsame⟩, -⟩ := hall
      obtain ⟨s'', text, happly', -, -, -, hne⟩ := h.apply hvalues.allShown
      obtain rfl := applied_unique happly happly'
      exact absurd hsame hne
    · exact List.not_mem_cons_of_ne_of_not_mem (Ne.symm ha)
        (ih (h.edit a) ((everyApply_edit ha).mp hall))

/-- Without a section no Apply writes anything. -/
theorem no_apply_without_section (hserver : s.server = none)
    (hlength : s.entries.length = confDbEnable + 1)
    (hP : ∀ es s s', P es s s' → HoldsValues es s'.server) (hall : EveryApply P es s as) :
    .apply ∉ as := by
  induction as generalizing es s with
  | nil => exact List.not_mem_nil
  | cons a as ih =>
    by_cases ha : a = .apply
    · subst ha
      obtain ⟨ok, s', happly, hvalues, -⟩ := hall
      obtain ⟨server, entries⟩ := s
      obtain rfl : server = none := hserver
      cases entries with
      | nil => cases hlength
      | cons x rest =>
        have hrun := applySettings_ok (Nat.succ.inj hlength) (applyEntries_none (x :: rest))
        obtain rfl := applied_unique happly hrun
        obtain ⟨n, hn, -⟩ := hP _ _ _ hvalues
        cases hn
    · have hlength' : (a.edit s.entries).length = confDbEnable + 1 := by
        rw [← List.length_map ConfEntry.kind, kinds_edit, List.length_map, hlength]
      have hall' := (everyApply_edit ha).mp hall
      exact List.not_mem_cons_of_ne_of_not_mem (Ne.symm ha)
        (ih (s := ⟨s.server, a.edit s.entries⟩) hserver hlength' hall')

theorem entriesAtApplies_eq_nil : entriesAtApplies es as = [] ↔ .apply ∉ as := by
  induction as generalizing es with
  | nil => exact ⟨fun _ => List.not_mem_nil, fun _ => rfl⟩
  | cons a as ih =>
    by_cases ha : a = .apply
    · subst ha
      simp [entriesAtApplies]
    · rw [entriesAtApplies_edit ha, ih]
      simp [Ne.symm ha]

end Runs

section Load

variable {codec : JsonCodec} {file : Option CString} {t : TabConfig}

/-- A loaded tab has no section, or a value in it for every entry. -/
theorem loaded_tab (h : loadConfigFile codec file = .ok t) :
    (t.server = none ∧ t.configEntries.length = confDbEnable + 1) ∨
      Fresh t.configEntries ⟨t.server, t.configEntries⟩ := by
  obtain ⟨doc, hdoc⟩ := loadConfigFile_document h
  have hload := (loadDocument_parts hdoc).server
  cases hsection : doc.getObjectItem "server".toList with
  | none =>
    rw [hsection] at hload
    obtain ⟨hnone, hentries⟩ := loadEntries_none hload
    exact .inl ⟨hnone, by rw [hentries]; rfl⟩
  | some v =>
    rw [hsection, Option.map_some] at hload
    obtain ⟨n, hserver, -, hloaded, -⟩ := loadEntries_some serverEntries_distinct hload
    refine .inr ⟨⟨n, hserver, ?_⟩, rfl, ?_⟩
    · intro k hk
      obtain ⟨e, he, rfl⟩ := List.mem_map.mp hk
      obtain ⟨e', -, hl⟩ := forall₂_partner hloaded he
      exact ⟨_, hl.found, hl.fits _ hl.found⟩
    · have hkinds : List.Forall₂ Eq (t.configEntries.map ConfEntry.kind) serverKinds := by
        apply List.forall₂_map_left_iff.mpr
        apply List.forall₂_map_right_iff.mpr
        exact (hloaded.imp fun _ _ hl => Prod.ext hl.path hl.type).flip
      rwa [List.forall₂_eq_eq_eq] at hkinds

/-- The document that a loaded tab writes has the section that its loop leaves. -/
theorem loaded_document (h : loadConfigFile codec file = .ok t) {w : Json}
    (hw : settingsDocument t = .ok w) :
    ∃ s, ServerTab.applySettings ⟨t.server, t.configEntries⟩ = .ok (true, s) ∧
      w.getObjectItem "server".toList = s.server.map JsonNode.toJson := by
  obtain ⟨doc, hdoc⟩ := loadConfigFile_document h
  have hlength : t.configEntries.length = confDbEnable + 1 := by
    rcases loaded_tab h with ⟨-, hlength⟩ | hfresh
    · exact hlength
    · rw [← List.length_map ConfEntry.kind, hfresh.kinds]
      rfl
  exact settingsDocument_tab (loadDocument_parts hdoc).attached hlength hw

/-- No Apply after a load leaves the list of entries as it was and writes their values. -/
theorem not_writesOnly (hload : loadConfigFile codec file = .ok t) {as : List TabAction}
    (hmem : .apply ∈ as) : ¬EveryApply WritesOnly t.configEntries ⟨t.server, t.configEntries⟩ as := by
  intro hall
  rcases loaded_tab hload with ⟨hnone, hlength⟩ | hfresh
  · exact no_apply_without_section hnone hlength (fun _ _ _ h => h.1) hall hmem
  · exact hfresh.no_apply hall hmem

/-- Without a section to write to, the values are written every time only where there is no time. -/
theorem every_without_section (hnone : t.server = none)
    (hlength : t.configEntries.length = confDbEnable + 1) (as : List TabAction) :
    EveryApply WritesValues t.configEntries ⟨t.server, t.configEntries⟩ as ↔
      entriesAtApplies t.configEntries as = [] := by
  rw [entriesAtApplies_eq_nil]
  exact ⟨no_apply_without_section hnone hlength fun _ _ _ h => h, everyApply_of_notMem⟩

/-- The edits and presses of Apply after a load: an Apply never leaves the list of entries as it
was. The values of all entries are written every time exactly when there is a section to write to,
the texts of the numbers are numbers, and the interface is the same at every Apply. The document
that is written to the file has the section that the loop over the entries leaves. -/
theorem repeated_apply_iff (hload : loadConfigFile codec file = .ok t) (as : List TabAction) :
    (EveryApply WritesOnly t.configEntries ⟨t.server, t.configEntries⟩ as ↔ .apply ∉ as) ∧
      (EveryApply WritesValues t.configEntries ⟨t.server, t.configEntries⟩ as ↔
        ∀ es ∈ entriesAtApplies t.configEntries as, t.server.isSome ∧ AllShown es ∧
          ∀ es' ∈ entriesAtApplies t.configEntries as, interfaceText es' = interfaceText es) ∧
      ∀ w, settingsDocument t = .ok w → ∃ s,
        ServerTab.applySettings ⟨t.server, t.configEntries⟩ = .ok (true, s) ∧
          w.getObjectItem "server".toList = s.server.map JsonNode.toJson := by
  refine ⟨?_, ?_, fun w => loaded_document hload⟩
  · constructor
    · intro hall hmem
      exact not_writesOnly hload hmem hall
    · exact everyApply_of_notMem
  rcases loaded_tab hload with ⟨hnone, hlength⟩ | hfresh
  · rw [every_without_section hnone hlength, hnone, List.eq_nil_iff_forall_not_mem]
    simp
  · obtain ⟨n, hserver, -⟩ := hfresh.server
    have hsection : t.server = some n := hserver
    rw [hfresh.every, hsection]
    simp only [Option.isSome_some, true_and]

end Load

/-- A second interface is typed in after the first Apply: the next one leaves the old one in the
section, and already the first one has changed the list. -/
theorem interface_edit_lost : ∃ t s₁ s₂, loadConfigFile JsonText.codec none = .ok t ∧
    ServerTab.applySettings ⟨t.server, (TabAction.input 0 "eth0".toList).edit t.configEntries⟩ =
      .ok (true, s₁) ∧
    s₁.entries.head?.map ConfEntry.jsonPath = some "db_enable".toList ∧
    ServerTab.applySettings ⟨s₁.server, (TabAction.input 0 "eth1".toList).edit s₁.entries⟩ =
      .ok (true, s₂) ∧
    s₂.server.bind (JsonNode.getItem "interface".toList) = some (.string "eth0".toList) ∧
    ¬EveryApply WritesOnly t.configEntries ⟨t.server, t.configEntries⟩
      [.input 0 "eth0".toList, .apply, .input 0 "eth1".toList, .apply] := by
  have hmem : TabAction.apply ∈
      [.input 0 "eth0".toList, .apply, .input 0 "eth1".toList, .apply] := by decide
  exact ⟨_, _, _, rfl, rfl, rfl, rfl, rfl,
    not_writesOnly (rfl : loadConfigFile JsonText.codec none = .ok _) hmem⟩

/-- An interface that stays and a number that is edited are written by both presses of Apply. -/
theorem number_edit_written : ∃ t, loadConfigFile JsonText.codec none = .ok t ∧
    EveryApply WritesValues t.configEntries ⟨t.server, t.configEntries⟩
      [.input 0 "eth0".toList, .apply, .input 1 "500".toList, .apply] := by
  obtain ⟨t, hload, hentries, hserver⟩ : ∃ t, loadConfigFile JsonText.codec none = .ok t ∧
      t.configEntries = serverEntries ∧ t.server.isSome := ⟨_, rfl, rfl, rfl⟩
  refine ⟨t, hload, (repeated_apply_iff hload _).2.1.mpr ?_⟩
  rw [hentries]
  have hshown : ∀ es ∈ entriesAtApplies serverEntries
      [.input 0 "eth0".toList, .apply, .input 1 "500".toList, .apply],
      (es.all fun e => e.shown.toOption.isSome) ∧ interfaceText es = some "eth0".toList := by
    decide +kernel
  intro es hes
  obtain ⟨hall, htext⟩ := hshown es hes
  refine ⟨hserver, ?_, ?_⟩
  · intro e he
    obtain ⟨w, hw⟩ := Option.isSome_iff_exists.mp (List.all_eq_true.mp hall e he)
    exact ⟨w, toOption_eq_some.mp hw⟩
  · intro es' hes'
    rw [htext, (hshown es' hes').2]

end DHCPServer
