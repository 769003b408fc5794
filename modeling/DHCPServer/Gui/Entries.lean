import Mathlib.Data.List.Forall2
import DHCPServer.Framework.Fault
import DHCPServer.Framework.FirstMatch
import DHCPServer.Gui.TabConfig

namespace DHCPServer

/-- The value has the kind an entry of the type writes over. -/
def ConfType.Fits (t : ConfType) (v : Json) : Prop :=
  match t with
  | .string | .ip => ∃ s, v = .string s
  | .numeric => ∃ q, v = .number q
  | .boolean => ∃ b, v = .bool b

/-- No two entries have the same key. -/
def DistinctPaths (es : List ConfEntry) : Prop :=
  es.Pairwise fun a b => Json.sameKey a.jsonPath b.jsonPath = false

theorem serverEntries_distinct : DistinctPaths serverEntries := by
  unfold DistinctPaths serverEntries
  decide

section Load

variable {n : JsonNode} {e e' : ConfEntry} {es : List ConfEntry}

theorem ConfEntry.added_fits (e : ConfEntry) : e.type.Fits e.added := by
  unfold ConfEntry.added ConfType.Fits
  cases e.type <;> exact ⟨_, rfl⟩

/-- Reading changes the value only, and succeeds on values of the right kind. -/
theorem ConfEntry.read_ok {v : Json} (h : e.read v = .ok e') :
    e'.jsonPath = e.jsonPath ∧ e'.type = e.type ∧ e.type.Fits v := by
  unfold ConfEntry.read at h
  split at h
  · rename_i ht
    cases h
    exact ⟨rfl, rfl, by rw [ht]; exact ⟨_, rfl⟩⟩
  · rename_i ht
    split at h
    · cases h
    · cases h
      exact ⟨rfl, rfl, by rw [ht]; exact ⟨_, rfl⟩⟩
  · rename_i ht
    cases h
    exact ⟨rfl, rfl, by rw [ht]; exact ⟨_, rfl⟩⟩
  · rename_i ht
    cases h
    exact ⟨rfl, rfl, by rw [ht]; exact ⟨_, rfl⟩⟩
  · cases h

/-- What loading does to one entry: its key is in the section afterwards, with the value from the
file or the default, and the entry shows the value from the file. -/
structure LoadedEntry (n n' : JsonNode) (e e' : ConfEntry) : Prop where
  path : e'.jsonPath = e.jsonPath
  type : e'.type = e.type
  found : n'.getItem e.jsonPath = some ((n.getItem e.jsonPath).getD e.added)
  fits : ∀ v, n'.getItem e.jsonPath = some v → e.type.Fits v
  missing : n.getItem e.jsonPath = none → e' = e
  read : ∀ v, n.getItem e.jsonPath = some v → e.read v = .ok e'

/-- A pass leaves the other keys alone. -/
theorem loadEntry_some {server : Option JsonNode} (h : loadEntry (some n) e = .ok (server, e')) :
    ∃ n', server = some n' ∧ n'.value = n.value ∧ LoadedEntry n n' e e' ∧
      ∀ key, Json.sameKey e.jsonPath key = false → n'.getItem key = n.getItem key := by
  unfold loadEntry at h
  rw [Option.bind_some] at h
  cases hv : n.getItem e.jsonPath with
  | none =>
    simp only [hv, Except.ok.injEq, Prod.mk.injEq, Option.map_some] at h
    obtain ⟨rfl, rfl⟩ := h
    have hadd : (n.addItem e.jsonPath e.added).getItem e.jsonPath = some e.added :=
      JsonNode.getItem_add_self hv
    refine ⟨_, rfl, rfl, ⟨rfl, rfl, by rw [hadd, hv]; rfl, ?_, fun _ => rfl, ?_⟩, ?_⟩
    · intro v hfound
      obtain rfl : e.added = v := Option.some.inj (hadd.symm.trans hfound)
      exact e.added_fits
    · intro v hfound
      rw [hv] at hfound
      cases hfound
    · intro key hkey
      exact JsonNode.getItem_add_ne hkey
  | some v =>
    simp only [hv] at h
    obtain ⟨e₁, hread, hrest⟩ := seq_ok.mp h
    cases hrest
    obtain ⟨hpath, htype, hfits⟩ := ConfEntry.read_ok hread
    refine ⟨n, rfl, rfl, ⟨hpath, htype, by rw [hv]; rfl, ?_, ?_, ?_⟩, fun _ _ => rfl⟩
    · intro v' hfound
      obtain rfl : v = v' := Option.some.inj (hv.symm.trans hfound)
      exact hfits
    · intro hmissing
      rw [hv] at hmissing
      cases hmissing
    · intro v' hfound
      obtain rfl : v = v' := Option.some.inj (hv.symm.trans hfound)
      exact hread

/-- Without a section the entries keep their defaults. -/
theorem loadEntries_none {server : Option JsonNode} {es' : List ConfEntry}
    (h : loadEntries none es = .ok (server, es')) : server = none ∧ es' = es := by
  induction es generalizing server es' with
  | nil =>
    cases h
    exact ⟨rfl, rfl⟩
  | cons e es ih =>
    obtain ⟨⟨server₁, e₁⟩, hstep, h⟩ := seq_ok.mp h
    cases hstep
    obtain ⟨⟨server₂, es₂⟩, hrest, h⟩ := seq_ok.mp h
    cases h
    obtain ⟨rfl, rfl⟩ := ih hrest
    exact ⟨rfl, rfl⟩

/-- A loaded entry stays as it is while the section changes under other keys. -/
theorem LoadedEntry.congr {n n₁ n' n₁' : JsonNode} (h : LoadedEntry n n' e e')
    (hn : n.getItem e.jsonPath = n₁.getItem e.jsonPath)
    (hn' : n'.getItem e.jsonPath = n₁'.getItem e.jsonPath) : LoadedEntry n₁ n₁' e e' where
  path := h.path
  type := h.type
  found := by rw [← hn, ← hn', h.found]
  fits := by rw [← hn']; exact h.fits
  missing := by rw [← hn]; exact h.missing
  read := by rw [← hn]; exact h.read

/-- Loading all entries does to each what loading it alone does. -/
theorem loadEntries_some {server : Option JsonNode} {es' : List ConfEntry} (hd : DistinctPaths es)
    (h : loadEntries (some n) es = .ok (server, es')) :
    ∃ n', server = some n' ∧ n'.value = n.value ∧ List.Forall₂ (LoadedEntry n n') es es' ∧
      ∀ key, (∀ e ∈ es, Json.sameKey e.jsonPath key = false) → n'.getItem key = n.getItem key := by
  induction es generalizing n server es' with
  | nil =>
    cases h
    exact ⟨n, rfl, rfl, .nil, fun _ _ => rfl⟩
  | cons e es ih =>
    obtain ⟨hne, hd⟩ := List.pairwise_cons.mp hd
    obtain ⟨⟨server₁, e₁⟩, hstep, h⟩ := seq_ok.mp h
    obtain ⟨n₁, rfl, hvalue₁, hloaded, hframe₁⟩ := loadEntry_some hstep
    obtain ⟨⟨server₂, es₂⟩, hrest, h⟩ := seq_ok.mp h
    cases h
    obtain ⟨n₂, hserver, hvalue₂, hall, hframe₂⟩ := ih hd hrest
    refine ⟨n₂, hserver, hvalue₂.trans hvalue₁, .cons ?_ ?_, ?_⟩
    · -- the later entries have other keys
      refine hloaded.congr rfl (hframe₂ _ fun e' he' => ?_).symm
      rw [Json.sameKey_comm]
      exact hne e' he'
    · have hkept : ∀ a ∈ es, n₁.getItem a.jsonPath = n.getItem a.jsonPath := fun a ha =>
        hframe₁ _ (hne a ha)
      exact ((List.forall₂_and_left _ _).mpr ⟨hkept, hall⟩).imp fun a b hab => hab.2.congr hab.1 rfl
    · intro key hkey
      rw [hframe₂ key fun e' he' => hkey e' (List.mem_cons_of_mem _ he'),
        hframe₁ key (hkey e List.mem_cons_self)]

/-- Loading neither makes a section nor loses one. -/
theorem loadEntries_isSome {s s' : Option JsonNode} {es' : List ConfEntry}
    (h : loadEntries s es = .ok (s', es')) : s'.isSome = s.isSome := by
  induction es generalizing s s' es' with
  | nil =>
    cases h
    rfl
  | cons e es ih =>
    obtain ⟨⟨s₁, e₁⟩, hstep, h⟩ := seq_ok.mp h
    obtain ⟨⟨s₂, es₂⟩, hrest, h⟩ := seq_ok.mp h
    cases h
    rw [ih hrest]
    unfold loadEntry at hstep
    split at hstep
    · cases hstep
      exact Option.isSome_map
    · obtain ⟨e', -, hstep⟩ := seq_ok.mp hstep
      cases hstep
      rfl

end Load

section Apply

variable {n : JsonNode} {e : ConfEntry} {es : List ConfEntry}

/-- What is written over a value that fits is of the same kind, and only a number that cannot be
converted is not written. -/
theorem ConfEntry.written_ok {v : Json} (hfits : e.type.Fits v)
    (hnumber : e.type = .numeric → ∃ k, stoi e.val = .ok k) : ∃ w, e.written v = .ok w := by
  unfold ConfType.Fits at hfits
  unfold ConfEntry.written
  cases ht : e.type with
  | string =>
    rw [ht] at hfits
    obtain ⟨s, rfl⟩ := hfits
    exact ⟨_, rfl⟩
  | ip =>
    rw [ht] at hfits
    obtain ⟨s, rfl⟩ := hfits
    exact ⟨_, rfl⟩
  | numeric =>
    rw [ht] at hfits
    obtain ⟨q, rfl⟩ := hfits
    obtain ⟨k, hk⟩ := hnumber ht
    exact ⟨.number (k : Rat), by simp only [hk]; rfl⟩
  | boolean =>
    rw [ht] at hfits
    obtain ⟨b, rfl⟩ := hfits
    exact ⟨_, rfl⟩

/-- What applying does to one entry whose key is in the section. -/
def AppliedEntry (n n' : JsonNode) (e : ConfEntry) : Prop :=
  ∃ v w, n.getItem e.jsonPath = some v ∧ e.written v = .ok w ∧ n'.getItem e.jsonPath = some w

theorem applyEntry_found {v : Json} {server : Option JsonNode} (hv : n.getItem e.jsonPath = some v) :
    applyEntry (some n) e = .ok server ↔
      ∃ w, e.written v = .ok w ∧ server = some (n.modifyItem e.jsonPath fun _ => w) := by
  have hstep : applyEntry (some n) e =
      e.written v >>= fun w => .ok (some (n.modifyItem e.jsonPath fun _ => w)) := by
    unfold applyEntry
    rw [Option.bind_some, hv]
    rfl
  rw [hstep, seq_ok]
  simp only [Except.ok.injEq, eq_comm]

/-- Applying all entries of a section does to each what applying it alone does. -/
theorem applyEntries_some {server : Option JsonNode} (hd : DistinctPaths es)
    (hfound : ∀ e ∈ es, (n.getItem e.jsonPath).isSome)
    (h : applyEntries (some n) es = .ok server) :
    ∃ n', server = some n' ∧ n'.value = n.value ∧ (∀ e ∈ es, AppliedEntry n n' e) ∧
      ∀ key, (∀ e ∈ es, Json.sameKey e.jsonPath key = false) → n'.getItem key = n.getItem key := by
  induction es generalizing n with
  | nil =>
    cases h
    exact ⟨n, rfl, rfl, by simp, fun _ _ => rfl⟩
  | cons e es ih =>
    obtain ⟨hne, hd⟩ := List.pairwise_cons.mp hd
    obtain ⟨v, hv⟩ := Option.isSome_iff_exists.mp (hfound e List.mem_cons_self)
    obtain ⟨server₁, hstep, h⟩ := seq_ok.mp h
    obtain ⟨w, hw, rfl⟩ := (applyEntry_found hv).mp hstep
    have hframe₁ : ∀ key, Json.sameKey e.jsonPath key = false →
        (n.modifyItem e.jsonPath fun _ => w).getItem key = n.getItem key := fun key hkey =>
      JsonNode.getItem_modify_ne hkey
    have hfound₁ : ∀ a ∈ es, ((n.modifyItem e.jsonPath fun _ => w).getItem a.jsonPath).isSome := by
      intro a ha
      rw [hframe₁ _ (hne a ha)]
      exact hfound a (List.mem_cons_of_mem _ ha)
    obtain ⟨n₂, hserver, hvalue₂, hall, hframe₂⟩ := ih hd hfound₁ h
    refine ⟨n₂, hserver, hvalue₂, ?_, ?_⟩
    · intro a ha
      rcases List.mem_cons.mp ha with rfl | ha
      · have hkeep : n₂.getItem a.jsonPath = (n.modifyItem a.jsonPath fun _ => w).getItem a.jsonPath :=
          hframe₂ _ fun b hb => by
            rw [Json.sameKey_comm]
            exact hne b hb
        exact ⟨v, w, hv, hw, by rw [hkeep, JsonNode.getItem_modify_self, hv]; rfl⟩
      · obtain ⟨v', w', hv', hw', hn'⟩ := hall a ha
        rw [hframe₁ _ (hne a ha)] at hv'
        exact ⟨v', w', hv', hw', hn'⟩
    · intro key hkey
      rw [hframe₂ key fun a ha => hkey a (List.mem_cons_of_mem _ ha),
        hframe₁ key (hkey e List.mem_cons_self)]

/-- The entries can be applied when each of them can. -/
theorem applyEntries_ok (hd : DistinctPaths es)
    (hall : ∀ e ∈ es, ∃ v w, n.getItem e.jsonPath = some v ∧ e.written v = .ok w) :
    ∃ n', applyEntries (some n) es = .ok (some n') := by
  induction es generalizing n with
  | nil => exact ⟨n, rfl⟩
  | cons e es ih =>
    obtain ⟨hne, hd⟩ := List.pairwise_cons.mp hd
    obtain ⟨v, w, hv, hw⟩ := hall e List.mem_cons_self
    have hstep := (applyEntry_found hv).mpr ⟨w, hw, rfl⟩
    have hrest : ∀ a ∈ es, ∃ v' w', (n.modifyItem e.jsonPath fun _ => w).getItem a.jsonPath = some v' ∧
        a.written v' = .ok w' := by
      intro a ha
      rw [JsonNode.getItem_modify_ne (hne a ha)]
      exact hall a (List.mem_cons_of_mem _ ha)
    obtain ⟨n', hn'⟩ := ih hd hrest
    exact ⟨n', seq_ok.mpr ⟨_, hstep, hn'⟩⟩

/-- Without a section nothing is written. -/
theorem applyEntries_none (es : List ConfEntry) : applyEntries none es = .ok none := by
  induction es with
  | nil => rfl
  | cons e es ih => exact seq_ok.mpr ⟨none, rfl, ih⟩

/-- The same holds of applying. -/
theorem applyEntries_isSome {s s' : Option JsonNode}
    (h : applyEntries s es = .ok s') : s'.isSome = s.isSome := by
  induction es generalizing s with
  | nil =>
    cases h
    rfl
  | cons e es ih =>
    obtain ⟨s₁, hstep, hrest⟩ := seq_ok.mp h
    rw [ih hrest]
    unfold applyEntry at hstep
    split at hstep
    · cases hstep
      rfl
    · obtain ⟨w, -, hstep⟩ := seq_ok.mp hstep
      cases hstep
      exact Option.isSome_map

end Apply

section Round

variable {n n' n₁ : JsonNode} {e e' : ConfEntry} {es es' : List ConfEntry} {w : Json}

/-- What loading and applying make of one entry: a missing one gets its default, a number is
rounded, and anything else stays as it is. -/
def EntryResult (n : JsonNode) (e : ConfEntry) (w : Json) : Prop :=
  match n.getItem e.jsonPath with
  | none => e.written e.added = .ok w
  | some v =>
    if e.type = .numeric then
      ∃ q, v = .number q ∧ InInt (roundHalfEven q) ∧ w = .number (roundHalfEven q : Rat)
    else w = v

theorem LoadedEntry.written (hl : LoadedEntry n n' e e')
    (hw : e'.written ((n.getItem e.jsonPath).getD e.added) = .ok w) : EntryResult n e w := by
  unfold EntryResult
  cases hv : n.getItem e.jsonPath with
  | none =>
    rw [hv, hl.missing hv] at hw
    exact hw
  | some v =>
    have hread := hl.read v hv
    rw [hv, Option.getD_some] at hw
    obtain ⟨-, -, hfits⟩ := ConfEntry.read_ok hread
    unfold ConfType.Fits at hfits
    cases ht : e.type with
    | string =>
      rw [ht] at hfits
      obtain ⟨s, rfl⟩ := hfits
      simp only [ConfEntry.read, ht] at hread
      obtain rfl := (Except.ok.inj hread).symm
      simp only [ConfEntry.written] at hw
      exact (Except.ok.inj hw).symm
    | ip =>
      rw [ht] at hfits
      obtain ⟨s, rfl⟩ := hfits
      simp only [ConfEntry.read, ht] at hread
      split at hread
      · cases hread
      obtain rfl := (Except.ok.inj hread).symm
      simp only [ConfEntry.written] at hw
      exact (Except.ok.inj hw).symm
    | numeric =>
      rw [ht] at hfits
      obtain ⟨q, rfl⟩ := hfits
      simp only [ConfEntry.read, ht] at hread
      obtain rfl := (Except.ok.inj hread).symm
      simp only [ConfEntry.written] at hw
      obtain ⟨k, hk, hw⟩ := seq_ok.mp hw
      rw [stoi_fixedText] at hk
      obtain ⟨rfl, hrange⟩ := checkInt_eq_ok.mp hk
      exact ⟨q, rfl, hrange, (Except.ok.inj hw).symm⟩
    | boolean =>
      rw [ht] at hfits
      obtain ⟨b, rfl⟩ := hfits
      simp only [ConfEntry.read, ht] at hread
      obtain rfl := (Except.ok.inj hread).symm
      simp only [ConfEntry.written] at hw
      obtain rfl := (Except.ok.inj hw).symm
      cases b <;> rfl

theorem DistinctPaths.of_paths (hd : DistinctPaths es)
    (hpaths : es'.map ConfEntry.jsonPath = es.map ConfEntry.jsonPath) : DistinctPaths es' := by
  unfold DistinctPaths at hd ⊢
  rw [← List.pairwise_map (f := ConfEntry.jsonPath) (R := fun a b => Json.sameKey a b = false)] at hd ⊢
  rwa [hpaths]

/-- Loaded entries have the keys they had. -/
theorem distinctPaths_loaded (hd : DistinctPaths es)
    (hloaded : List.Forall₂ (LoadedEntry n n') es es') : DistinctPaths es' := by
  have hpaths : List.Forall₂ Eq (es'.map ConfEntry.jsonPath) (es.map ConfEntry.jsonPath) :=
    List.forall₂_map_left_iff.mpr (List.forall₂_map_right_iff.mpr
      (hloaded.imp fun _ _ he => he.path).flip)
  rw [List.forall₂_eq_eq_eq] at hpaths
  exact hd.of_paths hpaths

/-- The key of a loaded entry is in the section. -/
theorem isSome_of_loaded (hloaded : List.Forall₂ (LoadedEntry n n') es es') :
    ∀ e' ∈ es', (n'.getItem e'.jsonPath).isSome := by
  intro e' he'
  obtain ⟨e, -, he⟩ := forall₂_partner hloaded.flip he'
  have hpath : e'.jsonPath = e.jsonPath := he.path
  rw [hpath, he.found]
  rfl

/-- Loading and applying the entries of a section, one after the other. -/
theorem entries_round {server server' : Option JsonNode} (hd : DistinctPaths es)
    (hload : loadEntries (some n) es = .ok (server, es')) (happly : applyEntries server es' = .ok server') :
    ∃ n', server' = some n' ∧ n'.value = n.value ∧
      (∀ e ∈ es, ∃ w, n'.getItem e.jsonPath = some w ∧ EntryResult n e w) ∧
      ∀ key, (∀ e ∈ es, Json.sameKey e.jsonPath key = false) → n'.getItem key = n.getItem key := by
  obtain ⟨n₁, rfl, hvalue₁, hloaded, hframe₁⟩ := loadEntries_some hd hload
  have hd' := distinctPaths_loaded hd hloaded
  obtain ⟨n₂, rfl, hvalue₂, happlied, hframe₂⟩ := applyEntries_some hd'
    (isSome_of_loaded hloaded) happly
  refine ⟨n₂, rfl, hvalue₂.trans hvalue₁, ?_, ?_⟩
  · intro e he
    obtain ⟨e', he', hl⟩ := forall₂_partner hloaded he
    obtain ⟨v, w, hv, hw, hw'⟩ := happlied e' he'
    rw [hl.path] at hv hw'
    have hfv := Option.some.inj (hl.found.symm.trans hv)
    exact ⟨w, hw', hl.written (by rw [hfv, hw])⟩
  · intro key hkey
    have hkey' : ∀ e' ∈ es', Json.sameKey e'.jsonPath key = false := by
      intro e' he'
      obtain ⟨e, he, hl⟩ := forall₂_partner hloaded.flip he'
      have hpath : e'.jsonPath = e.jsonPath := hl.path
      rw [hpath]
      exact hkey e he
    rw [hframe₂ key hkey', hframe₁ key hkey]

/-- Loaded entries can be applied when the numbers fit, those of the file as well as the ones that
stand in for missing entries. -/
theorem entries_round_ok {server : Option JsonNode} (hd : DistinctPaths es)
    (hload : loadEntries (some n) es = .ok (server, es'))
    (hdefault : ∀ e ∈ es, e.type = .numeric → ∃ k, stoi e.val = .ok k)
    (hnumber : ∀ e ∈ es, e.type = .numeric → ∀ q, n.getItem e.jsonPath = some (.number q) →
      InInt (roundHalfEven q)) : ∃ server', applyEntries server es' = .ok server' := by
  obtain ⟨n₁, rfl, -, hloaded, -⟩ := loadEntries_some hd hload
  have hall : ∀ e' ∈ es', ∃ v w, n₁.getItem e'.jsonPath = some v ∧ e'.written v = .ok w := by
    intro e' he'
    obtain ⟨e, he, hl⟩ := forall₂_partner hloaded.flip he'
    have hle : LoadedEntry n n₁ e e' := hl
    have hfits := hle.fits _ hle.found
    rw [← hle.type] at hfits
    have hconvert : e'.type = .numeric → ∃ k, stoi e'.val = .ok k := by
      intro ht
      rw [hle.type] at ht
      cases hv : n.getItem e.jsonPath with
      | none =>
        rw [hle.missing hv]
        exact hdefault e he ht
      | some v =>
        have hread := hle.read v hv
        obtain ⟨-, -, hfv⟩ := ConfEntry.read_ok hread
        rw [ht] at hfv
        obtain ⟨q, rfl⟩ := hfv
        simp only [ConfEntry.read, ht] at hread
        obtain rfl := (Except.ok.inj hread).symm
        exact ⟨roundHalfEven q, by
          rw [stoi_fixedText]
          exact checkInt_eq_ok.mpr ⟨rfl, hnumber e he ht q hv⟩⟩
    obtain ⟨w, hw⟩ := ConfEntry.written_ok hfits hconvert
    exact ⟨_, w, by rw [hle.path, hle.found], hw⟩
  have hd' := distinctPaths_loaded hd hloaded
  obtain ⟨n', hn'⟩ := applyEntries_ok hd' hall
  exact ⟨some n', hn'⟩

end Round

end DHCPServer
