import DHCPServer.Framework.Fault
import DHCPServer.Framework.Loop
import DHCPServer.Packet.Option

namespace DHCPServer

/-- The variables `dhcp_option_parse` carries from pass to pass. `overrun` records that a
`memcpy` has left `raw_options` or `value_buf`. -/
structure ParseState where
  i : Nat
  dest : List DhcpOption
  overrun : Bool

/-- The option whose tag byte is at `i`. -/
def optionAt (raw : Buffer optionsFieldSize) (i : Nat) : DhcpOption :=
  let tag := raw.get i
  let type := dhcpOptionTagToType tag
  let lenght := raw.get (i + 1)
  let valueBuf := Buffer.tabulate optionMaxLenght fun k =>
    if k < lenght.toNat then raw.get (i + 2 + k) else 0
  ⟨type, tag, lenght, parseOptionValue type lenght valueBuf⟩

/-- The value of the option at `i` fits neither the field nor the value buffer. -/
def overrunAt (raw : Buffer optionsFieldSize) (i : Nat) : Bool :=
  let lenght := (raw.get (i + 1)).toNat
  decide (optionMaxLenght < lenght) || decide (optionsFieldSize < i + 2 + lenght)

/-- One pass of the loop of `dhcp_option_parse`. -/
def parseBody (raw : Buffer optionsFieldSize) (s : ParseState) : Pass ParseState ParseState :=
  if s.i < packetOptionsSize then
    if raw.get s.i = Tag.pad then
      -- `continue` in a loop without increment
      .next s
    else if raw.get s.i = Tag.endMark then .done s
    else
      .next ⟨s.i + 2 + (raw.get (s.i + 1)).toNat, dhcpOptionAdd s.dest (optionAt raw s.i),
        s.overrun || overrunAt raw s.i⟩
  else .done s

def parseEntry : ParseState := ⟨0, [], false⟩

/-- `dhcp_option_parse` into an empty list. A pass that advances does so by at least two, so
more than `packetOptionsSize` passes mean that the loop is never left. -/
def dhcpOptionParse (raw : Buffer optionsFieldSize) : Except Fault (List DhcpOption) :=
  match Loop.run (parseBody raw) (packetOptionsSize + 1) parseEntry with
  | none => .error .diverges
  | some s => if s.overrun then .error .outOfBounds else .ok s.dest

/-- The indexes at which the format puts a tag byte: the first byte of the field, and the byte
after each option. -/
inductive OptionPosition (raw : Buffer optionsFieldSize) : Nat → Prop
  | first : OptionPosition raw 0
  | after {i : Nat} : OptionPosition raw i → i < packetOptionsSize →
      raw.get i ≠ Tag.pad → raw.get i ≠ Tag.endMark →
      OptionPosition raw (i + 2 + (raw.get (i + 1)).toNat)

section Parse

variable {raw : Buffer optionsFieldSize}

/-- What a pass can do: stay where it is on a PAD byte, or step over one option. -/
theorem parseBody_next {s s' : ParseState} (h : parseBody raw s = .next s') :
    s.i < packetOptionsSize ∧
      ((raw.get s.i = Tag.pad ∧ s' = s) ∨
        (raw.get s.i ≠ Tag.pad ∧ raw.get s.i ≠ Tag.endMark ∧
          s' = ⟨s.i + 2 + (raw.get (s.i + 1)).toNat, dhcpOptionAdd s.dest (optionAt raw s.i),
            s.overrun || overrunAt raw s.i⟩)) := by
  unfold parseBody at h
  split at h
  · rename_i hi
    split at h
    · rename_i hp
      exact ⟨hi, .inl ⟨hp, (Pass.next.inj h).symm⟩⟩
    · rename_i hp
      split at h
      · cases h
      · rename_i he
        exact ⟨hi, .inr ⟨hp, he, (Pass.next.inj h).symm⟩⟩
  · cases h

theorem parseBody_option {s : ParseState} (hi : s.i < packetOptionsSize)
    (hp : raw.get s.i ≠ Tag.pad) (he : raw.get s.i ≠ Tag.endMark) :
    parseBody raw s = .next ⟨s.i + 2 + (raw.get (s.i + 1)).toNat,
      dhcpOptionAdd s.dest (optionAt raw s.i), s.overrun || overrunAt raw s.i⟩ := by
  simp [parseBody, hi, hp, he]

theorem parseBody_pad {s : ParseState} (hi : s.i < packetOptionsSize)
    (hp : raw.get s.i = Tag.pad) : parseBody raw s = .next s := by
  simp [parseBody, hi, hp]

/-- The loop head is met exactly at the option positions. -/
theorem visits_position {s : ParseState} (h : Loop.Visits (parseBody raw) parseEntry s) :
    OptionPosition raw s.i := by
  induction h with
  | entry => exact .first
  | pass _ hb ih =>
    obtain ⟨hi, ⟨_, rfl⟩ | ⟨hp, he, rfl⟩⟩ := parseBody_next hb
    · exact ih
    · exact ih.after hi hp he

theorem position_visited {i : Nat} (h : OptionPosition raw i) :
    ∃ s, Loop.Visits (parseBody raw) parseEntry s ∧ s.i = i := by
  induction h with
  | first => exact ⟨parseEntry, .entry, rfl⟩
  | after _ hi hp he ih =>
    obtain ⟨s, hs, rfl⟩ := ih
    exact ⟨_, hs.pass (parseBody_option hi hp he), rfl⟩

/-- No PAD byte at an option position that the loop reaches. -/
def NoPadAtOption (raw : Buffer optionsFieldSize) : Prop :=
  ∀ i, OptionPosition raw i → i < packetOptionsSize → raw.get i ≠ Tag.pad

/-- Every pass that does not leave the loop moves the read index forward. -/
def Advances (raw : Buffer optionsFieldSize) : Prop :=
  ∀ s s', Loop.Visits (parseBody raw) parseEntry s → parseBody raw s = .next s' → s.i < s'.i

theorem advances_iff : Advances raw ↔ NoPadAtOption raw := by
  constructor
  · intro h i hpos hi hp
    obtain ⟨s, hs, rfl⟩ := position_visited hpos
    exact lt_irrefl _ (h s s hs (parseBody_pad hi hp))
  · intro h s s' hs hb
    obtain ⟨hi, ⟨hp, _⟩ | ⟨_, _, rfl⟩⟩ := parseBody_next hb
    · exact absurd hp (h s.i (visits_position hs) hi)
    · simp only
      omega

/-- Moving forward on every pass, the loop is left within `packetOptionsSize + 1` passes. -/
theorem parse_isSome_of_advances (h : Advances raw) :
    (Loop.run (parseBody raw) (packetOptionsSize + 1) parseEntry).isSome := by
  apply Loop.run_isSome_of_measure (fun s => packetOptionsSize - s.i)
  · intro s s' hs hb
    have hi := (parseBody_next hb).1
    have hadv := h s s' hs hb
    omega
  · simp only [parseEntry]
    omega

theorem parse_terminates_iff :
    Loop.Terminates (parseBody raw) parseEntry ↔ NoPadAtOption raw := by
  constructor
  · intro ht i hpos hi hp
    obtain ⟨s, hs, rfl⟩ := position_visited hpos
    exact Loop.not_terminates_of_stuck (parseBody_pad hi hp)
      ((Loop.terminates_visits hs).mp ht)
  · intro h
    exact ⟨_, parse_isSome_of_advances (advances_iff.mpr h)⟩

/-- The fuel of `dhcpOptionParse` is enough: it reports divergence only when there is one. -/
theorem dhcpOptionParse_diverges_iff :
    dhcpOptionParse raw = .error .diverges ↔ ¬Loop.Terminates (parseBody raw) parseEntry := by
  constructor
  · rintro h ht
    have hs := parse_isSome_of_advances (advances_iff.mpr (parse_terminates_iff.mp ht))
    obtain ⟨s, hr⟩ := Option.isSome_iff_exists.mp hs
    simp only [dhcpOptionParse, hr] at h
    split at h <;> cases h
  · intro ht
    cases hr : Loop.run (parseBody raw) (packetOptionsSize + 1) parseEntry with
    | none => simp [dhcpOptionParse, hr]
    | some s => exact absurd ⟨_, by rw [hr]; rfl⟩ ht

end Parse

/-- The option scan ends, and every pass either leaves it or moves the read index forward,
exactly when no PAD byte stands at an option position. -/
theorem optionScan_ends_iff_no_pad (raw : Buffer optionsFieldSize) :
    (dhcpOptionParse raw ≠ .error .diverges ∧ Loop.Terminates (parseBody raw) parseEntry ∧
      Advances raw) ↔ NoPadAtOption raw := by
  rw [Ne, dhcpOptionParse_diverges_iff, not_not, advances_iff, parse_terminates_iff]
  tauto

/-- Message type DISCOVER, one PAD byte, END: a field that any client may send. -/
def paddedOptions : Buffer optionsFieldSize :=
  (Buffer.zero optionsFieldSize).write 0 [53, 1, 1, 0, 255]

/-- The scan of this field never ends. -/
theorem optionScan_hangs_on_pad :
    dhcpOptionParse paddedOptions = .error .diverges ∧
      ¬Loop.Terminates (parseBody paddedOptions) parseEntry ∧ ¬Advances paddedOptions := by
  have hpad : ¬NoPadAtOption paddedOptions := by
    intro h
    have hlen : 0 + 2 + (paddedOptions.get (0 + 1)).toNat = 3 := by decide +kernel
    have hpos : OptionPosition paddedOptions (0 + 2 + (paddedOptions.get (0 + 1)).toNat) :=
      .after .first (by decide) (by decide +kernel) (by decide +kernel)
    rw [hlen] at hpos
    exact h 3 hpos (by decide) (by decide +kernel)
  rw [dhcpOptionParse_diverges_iff, parse_terminates_iff, advances_iff]
  exact ⟨hpad, hpad, hpad⟩

end DHCPServer
