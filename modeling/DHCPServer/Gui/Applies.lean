import DHCPServer.Gui.Document

namespace DHCPServer

/-- The server section behind its pointer, and the entries that the widgets of the server tab are
bound to. -/
structure ServerTab where
  server : Option JsonNode
  entries : List ConfEntry

/-- The index of the last server entry. -/
abbrev confDbEnable : Nat := 7

/-- A pass of the loop of `apply_settings` over the server entries. `entry` refers to the first of
them, which the assignment of the `i`-th one therefore overwrites. `false` stands for the return
value -1; an error is an exception, which nothing catches. -/
def applyPass (s : ServerTab) (i : Nat) : Except GuiError (Bool × ServerTab) :=
  match s.entries[i]? with
  | none => .ok (true, s)
  | some e =>
    let entries := s.entries.set 0 e
    match s.server.bind (JsonNode.getItem e.jsonPath) with
    | none => .ok (true, ⟨s.server, entries⟩)
    | some v =>
      match e.written v with
      | .ok w => .ok (true, ⟨s.server.map (JsonNode.modifyItem e.jsonPath fun _ => w), entries⟩)
      | .error .rejected => .ok (false, ⟨s.server, entries⟩)
      | .error f => .error f

def applyPasses (s : ServerTab) : List Nat → Except GuiError (Bool × ServerTab)
  | [] => .ok (true, s)
  | i :: is => do
    let (ok, s) ← applyPass s i
    if ok then applyPasses s is else return (false, s)

/-- `apply_settings` as far as it works on the server section. What follows there is about the
other sections and entries. -/
def ServerTab.applySettings (s : ServerTab) : Except GuiError (Bool × ServerTab) :=
  applyPasses s (List.range (confDbEnable + 1))

/-- What is done at the server tab: text is typed into one of its inputs, its toggle is moved, or
Apply is pressed. -/
inductive TabAction where
  | input (i : Fin confDbEnable) (text : CString)
  | toggle (index : Int)
  | apply
  deriving DecidableEq

/-- The entries after an edit. -/
def TabAction.edit : TabAction → List ConfEntry → List ConfEntry
  | .input i text, entries => entries.modify i fun e => { e with val := text }
  | .toggle index, entries => entries.modify confDbEnable fun e => { e with valI := index }
  | .apply, entries => entries

section Pass

variable {server server' : Option JsonNode} {x e : ConfEntry} {rest : List ConfEntry} {i : Nat}

/-- A pass that applies its entry leaves it in the place of the first one. -/
theorem applyPass_ok (hi : (x :: rest)[i]? = some e) (h : applyEntry server e = .ok server') :
    applyPass ⟨server, x :: rest⟩ i = .ok (true, ⟨server', e :: rest⟩) := by
  cases hv : server.bind (JsonNode.getItem e.jsonPath) with
  | none =>
    rw [applyEntry, hv] at h
    obtain rfl := Except.ok.inj h
    simp only [applyPass, hi, List.set_cons_zero, hv]
  | some v =>
    rw [applyEntry, hv] at h
    obtain ⟨w, hw, hserver⟩ := seq_ok.mp h
    obtain rfl := Except.ok.inj hserver
    simp only [applyPass, hi, List.set_cons_zero, hv, hw]

/-- The passes behind the first one apply their entries, and the last of them is left in the place
of the first. -/
theorem applyPasses_ok {done es : List ConfEntry} (h : applyEntries server es = .ok server') :
    applyPasses ⟨server, x :: (done ++ es)⟩ (List.range' (done.length + 1) es.length) =
      .ok (true, ⟨server', es.getLast?.getD x :: (done ++ es)⟩) := by
  induction es generalizing done x server with
  | nil =>
    obtain rfl := Except.ok.inj h
    rfl
  | cons e es ih =>
    obtain ⟨server₁, hstep, hrest⟩ := seq_ok.mp h
    have hindex : (x :: (done ++ e :: es))[done.length + 1]? = some e := by
      simp
    have hpass := applyPass_ok hindex hstep
    have hnext : applyPasses ⟨server₁, e :: ((done ++ [e]) ++ es)⟩
        (List.range' ((done ++ [e]).length + 1) es.length) =
          .ok (true, ⟨server', es.getLast?.getD e :: ((done ++ [e]) ++ es)⟩) := ih hrest
    rw [List.append_assoc, List.singleton_append, List.length_append, List.length_singleton] at hnext
    rw [List.length_cons, List.range'_succ, List.getLast?_cons, Option.getD_some, applyPasses]
    exact seq_ok.mpr ⟨_, hpass, hnext⟩

/-- Where every entry can be applied all are, and the list is left with its last entry in front. -/
theorem applySettings_ok (hlength : rest.length = confDbEnable)
    (h : applyEntries server (x :: rest) = .ok server') :
    ServerTab.applySettings ⟨server, x :: rest⟩ =
      .ok (true, ⟨server', rest.getLast?.getD x :: rest⟩) := by
  obtain ⟨server₁, hstep, hrest⟩ := seq_ok.mp h
  have hpass : applyPass ⟨server, x :: rest⟩ 0 = .ok (true, ⟨server₁, x :: rest⟩) :=
    applyPass_ok rfl hstep
  have hnext : applyPasses ⟨server₁, x :: ([] ++ rest)⟩ (List.range' 1 rest.length) =
      .ok (true, ⟨server', rest.getLast?.getD x :: ([] ++ rest)⟩) := applyPasses_ok hrest
  rw [hlength] at hnext
  rw [ServerTab.applySettings, List.range_eq_range', List.range'_succ, applyPasses]
  exact seq_ok.mpr ⟨_, hpass, hnext⟩

/-- The document that is printed has the section that the loop leaves behind. -/
theorem settingsDocument_tab {t : TabConfig} {w : Json} (ha : Attached t)
    (hlength : t.configEntries.length = confDbEnable + 1) (h : settingsDocument t = .ok w) :
    ∃ s, ServerTab.applySettings ⟨t.server, t.configEntries⟩ = .ok (true, s) ∧
      w.getObjectItem "server".toList = s.server.map JsonNode.toJson := by
  obtain ⟨server, happly, hw⟩ := (settingsDocument_parts ha h).1.server
  cases hentries : t.configEntries with
  | nil =>
    rw [hentries] at hlength
    cases hlength
  | cons x rest =>
    rw [hentries] at hlength happly
    exact ⟨_, applySettings_ok (Nat.succ.inj hlength) happly, hw⟩

end Pass

end DHCPServer
