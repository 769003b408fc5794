import DHCPServer.Packet.Message

namespace DHCPServer

/-- A UDP payload as `recv` with a buffer of `sizeof(dhcp_packet_t)` bytes delivers it. -/
structure Datagram where
  bytes : List UInt8
  size : bytes.length ≤ packetSize
  deriving DecidableEq

/-- The receive step of `dhcp_server_serve`: `recv` overwrites the front of the one message
buffer, the length it returns is not used, and the whole buffer is parsed. -/
def receive (m : Message) (d : Datagram) : Except Fault (Bool × Message) :=
  dhcpPacketParse (m.setPacket (m.packet.write 0 d.bytes))

/-- The contents `dhcp_msg` can have: as allocated, or after any receive steps. Between two of
them the server stamps the message with a time. -/
inductive MessageBuffer : Message → Prop
  | fresh : MessageBuffer dhcpMessageNew
  | received {m m' : Message} {ok : Bool} (d : Datagram) (time : UInt32) :
      MessageBuffer m → receive m d = .ok (ok, m') → MessageBuffer (m'.setTime time)

/-- What parsing computes: everything but the raw packet and the time stamp. -/
def Message.parsed (m : Message) : Message :=
  (m.setPacket (Buffer.zero packetSize)).setTime 0

section Parsed

variable (m : Message) (options : List DhcpOption) (t : UInt32)

theorem parsed_setOptions : (m.setOptions options).parsed = m.parsed.setOptions options := rfl
theorem parsed_setType : (m.setType t).parsed = m.parsed.setType t := rfl
@[simp] theorem parsed_cookie : m.parsed.cookie = m.cookie := by simp [Message.parsed]
@[simp] theorem parsed_type : m.parsed.type = m.type := by simp [Message.parsed]
@[simp] theorem parsed_dhcpOptions : m.parsed.dhcpOptions = m.dhcpOptions := by
  simp [Message.parsed]

end Parsed

/-- Every history of received packets leads to the same accept or reject decision and the same
parsed message for `d`. -/
def DependsOnlyOn (d : Datagram) : Prop :=
  ∃ r : Bool × Message, ∀ m, MessageBuffer m →
    (receive m d).map (fun res => (res.1, res.2.parsed)) = .ok r

/-- Byte `i` of the options field as the datagram gives it. -/
def Datagram.option (d : Datagram) (i : Nat) : UInt8 := d.bytes.getD (optionsOffset + i) 0

/-- The value of the option at `i` is decided by the datagram: it lies inside, or it is not
stored because the tag has been seen, or only its first byte counts and that one is inside. -/
def ValueGiven (d : Datagram) (i : Nat) (seen : List UInt8) : Prop :=
  optionsOffset + i + 2 + (d.option (i + 1)).toNat ≤ d.bytes.length ∨ d.option i ∈ seen ∨
    (dhcpOptionTagToType (d.option i) = .bool ∧ optionsOffset + i + 2 < d.bytes.length)

/-- From option position `i` on, with the tags `seen` before it, the datagram itself carries
all that the option scan reads and stores, up to an END mark or the end of the scanned part,
and option 53 is met. -/
inductive Complete (d : Datagram) : Nat → List UInt8 → Prop
  | scanned {i : Nat} {seen : List UInt8} : packetOptionsSize ≤ i →
      Tag.dhcpMessageType ∈ seen → Complete d i seen
  | endMark {i : Nat} {seen : List UInt8} : i < packetOptionsSize →
      optionsOffset + i < d.bytes.length → d.option i = Tag.endMark →
      Tag.dhcpMessageType ∈ seen → Complete d i seen
  | option {i : Nat} {seen : List UInt8} : i < packetOptionsSize →
      optionsOffset + i + 1 < d.bytes.length →
      d.option i ≠ Tag.pad → d.option i ≠ Tag.endMark →
      (d.option (i + 1)).toNat ≤ optionMaxLenght →
      i + 2 + (d.option (i + 1)).toNat ≤ optionsFieldSize →
      ValueGiven d i seen →
      Complete d (i + 2 + (d.option (i + 1)).toNat) (d.option i :: seen) → Complete d i seen

/-- The datagram has a whole header with the magic cookie and complete options. -/
structure SelfContained (d : Datagram) : Prop where
  header : optionsOffset ≤ d.bytes.length
  cookie : be32 (d.bytes.getD 236 0) (d.bytes.getD 237 0) (d.bytes.getD 238 0)
    (d.bytes.getD 239 0) = magicCookie
  options : Complete d 0 []

section Overlay

variable {d : Datagram} {m : Message}

/-- The buffer after `recv`: the datagram in front, what was there before behind it. -/
theorem get_overlay (p : Buffer packetSize) (d : Datagram) {i : Nat} (hi : i < packetSize) :
    (p.write 0 d.bytes).get i = if i < d.bytes.length then d.bytes.getD i 0 else p.get i := by
  rw [Buffer.get_write p 0 d.bytes i hi]
  simp

/-- A field that shows the datagram wherever the datagram reaches. -/
def Shows (raw : Buffer optionsFieldSize) (d : Datagram) : Prop :=
  ∀ i, optionsOffset + i < d.bytes.length → raw.get i = d.option i

theorem shows_overlay (p : Buffer packetSize) (d : Datagram) :
    Shows (packetOptions (p.write 0 d.bytes)) d := by
  intro i hi
  have hp : optionsOffset + i < packetSize := hi.trans_le d.size
  have hf : i < optionsFieldSize := by
    simp only [optionsOffset, packetSize, optionsFieldSize] at hp ⊢
    omega
  rw [packetOptions, Buffer.get_slice _ _ _ hf, get_overlay p d hp, if_pos hi]
  rfl

end Overlay

section Scan

variable {raw : Buffer optionsFieldSize}

theorem overrun_stays {s₀ s : ParseState} (h : Loop.Visits (parseBody raw) s₀ s)
    (h₀ : s₀.overrun = true) : s.overrun = true := by
  refine h.invariant (P := fun s => s.overrun = true) h₀ ?_
  intro v v' hv hb
  obtain ⟨_, ⟨_, rfl⟩ | ⟨_, _, rfl⟩⟩ := parseBody_next hb
  · exact hv
  · simp [hv]

theorem parseBody_done {s r : ParseState} (h : parseBody raw s = .done r) : r = s := by
  unfold parseBody at h
  split at h
  · split at h
    · cases h
    · split at h
      · exact (Pass.done.inj h).symm
      · cases h
  · exact (Pass.done.inj h).symm

/-- The result is the state in which the loop was left. -/
theorem scan_result {fuel : Nat} {s r : ParseState}
    (h : Loop.run (parseBody raw) fuel s = some r) : Loop.Visits (parseBody raw) s r := by
  obtain ⟨v, hv, hd⟩ := Loop.exists_last_pass .entry h
  rw [parseBody_done hd]
  exact hv

/-- A stored option stays the one that a lookup of its tag finds. -/
theorem retrieve_stays {s₀ s : ParseState} {tag : UInt8} {o : DhcpOption}
    (h : Loop.Visits (parseBody raw) s₀ s) (h₀ : dhcpOptionRetrieve s₀.dest tag = some o) :
    dhcpOptionRetrieve s.dest tag = some o := by
  refine h.invariant (P := fun s => dhcpOptionRetrieve s.dest tag = some o) h₀ ?_
  intro v v' hv hb
  obtain ⟨_, ⟨_, rfl⟩ | ⟨_, _, rfl⟩⟩ := parseBody_next hb
  · exact hv
  · exact dhcpOptionRetrieve_add _ hv

/-- `dhcp_option_parse` yields a list exactly when the scan leaves its loop with that list and
without an overrun. -/
theorem dhcpOptionParse_eq_ok {dest : List DhcpOption} :
    dhcpOptionParse raw = .ok dest ↔
      ∃ fuel i, Loop.run (parseBody raw) fuel parseEntry = some ⟨i, dest, false⟩ := by
  constructor
  · intro h
    cases hr : Loop.run (parseBody raw) (packetOptionsSize + 1) parseEntry with
    | none => simp [dhcpOptionParse, hr] at h
    | some s =>
      obtain ⟨i, dest', overrun⟩ := s
      simp only [dhcpOptionParse, hr] at h
      cases overrun with
      | true => simp at h
      | false =>
        simp only [Bool.false_eq_true, if_false, Except.ok.injEq] at h
        exact ⟨_, i, h ▸ hr⟩
  · intro hh
    obtain ⟨fuel, i, h⟩ := hh
    have ht : Loop.Terminates (parseBody raw) parseEntry := ⟨fuel, by rw [h]; rfl⟩
    have hs := parse_isSome_of_advances (advances_iff.mpr (parse_terminates_iff.mp ht))
    obtain ⟨s, hr⟩ := Option.isSome_iff_exists.mp hs
    have he := Loop.run_unique hr h
    simp [dhcpOptionParse, hr, he]

end Scan

section Complete

variable {d : Datagram}

/-- The tags seen so far are those of the options stored so far. -/
def Records (seen : List UInt8) (dest : List DhcpOption) : Prop :=
  ∀ tag, tag ∈ seen ↔ (dhcpOptionRetrieve dest tag).isSome

theorem records_add {seen : List UInt8} {dest : List DhcpOption} (h : Records seen dest)
    (o : DhcpOption) : Records (o.tag :: seen) (dhcpOptionAdd dest o) := by
  intro tag
  unfold dhcpOptionAdd
  split
  · rename_i hs
    rw [List.mem_cons, h tag]
    constructor
    · rintro (rfl | ht)
      · exact hs
      · exact ht
    · exact .inr
  · rw [List.mem_cons, h tag]
    simp only [dhcpOptionRetrieve, List.find?_append, Option.isSome_or, Bool.or_eq_true]
    have he : ([o].find? fun x => x.tag == tag).isSome ↔ tag = o.tag := by
      by_cases ht : o.tag = tag
      · simp [ht]
      · simp [ht, Ne.symm ht]
    rw [he]
    tauto

/-- A value that the datagram decides makes the same entry from every buffer. -/
theorem add_optionAt_congr {raw raw' : Buffer optionsFieldSize} (hr : Shows raw d)
    (hr' : Shows raw' d) {i : Nat} {seen : List UInt8} {dest : List DhcpOption}
    (hrec : Records seen dest) (hlen : optionsOffset + i + 1 < d.bytes.length)
    (hv : ValueGiven d i seen) :
    dhcpOptionAdd dest (optionAt raw i) = dhcpOptionAdd dest (optionAt raw' i) := by
  have ht : raw.get i = d.option i := hr i (by omega)
  have ht' : raw'.get i = d.option i := hr' i (by omega)
  have hl : raw.get (i + 1) = d.option (i + 1) := hr (i + 1) (by omega)
  have hl' : raw'.get (i + 1) = d.option (i + 1) := hr' (i + 1) (by omega)
  rcases hv with hin | hseen | ⟨hb, hin⟩
  · have hval : ∀ k, k < (d.option (i + 1)).toNat → raw.get (i + 2 + k) = raw'.get (i + 2 + k) := by
      intro k hk
      rw [hr (i + 2 + k) (by omega), hr' (i + 2 + k) (by omega)]
    have hbuf : (Buffer.tabulate optionMaxLenght fun k =>
          if k < (d.option (i + 1)).toNat then raw.get (i + 2 + k) else 0) =
        Buffer.tabulate optionMaxLenght fun k =>
          if k < (d.option (i + 1)).toNat then raw'.get (i + 2 + k) else 0 := by
      congr 1
      funext k
      split
      · rename_i hk
        exact hval k hk
      · rfl
    simp only [optionAt, ht, ht', hl, hl', hbuf]
  · have hdup : ∀ o : DhcpOption, o.tag = d.option i → dhcpOptionAdd dest o = dest := by
      intro o ho
      rw [dhcpOptionAdd, if_pos]
      rw [ho]
      exact (hrec _).mp hseen
    rw [hdup _ ht, hdup _ ht']
  · have h0 : raw.get (i + 2) = raw'.get (i + 2) := by
      rw [hr (i + 2) (by omega), hr' (i + 2) (by omega)]
    simp only [optionAt, ht, ht', hl, hl', hb, parseOptionValue, Buffer.get_tabulate, h0,
      Nat.add_zero]

/-- What a pass over an option does to every buffer that shows the datagram. -/
theorem pass_option {raw : Buffer optionsFieldSize} (hr : Shows raw d) {i : Nat}
    (dest : List DhcpOption) (hi : i < packetOptionsSize)
    (hlen : optionsOffset + i + 1 < d.bytes.length) (hp : d.option i ≠ Tag.pad)
    (he : d.option i ≠ Tag.endMark) :
    parseBody raw ⟨i, dest, false⟩ =
      .next ⟨i + 2 + (d.option (i + 1)).toNat, dhcpOptionAdd dest (optionAt raw i),
        overrunAt raw i⟩ := by
  have ht : raw.get i = d.option i := hr i (by omega)
  have hl : raw.get (i + 1) = d.option (i + 1) := hr (i + 1) (by omega)
  rw [parseBody_option (s := ⟨i, dest, false⟩) hi (by rwa [ht]) (by rwa [ht])]
  simp [hl]

/-- The scan of complete options finds one and the same list in every buffer. -/
theorem scan_of_complete {i : Nat} {seen : List UInt8} (h : Complete d i seen) :
    ∀ dest, Records seen dest → ∃ j res, (dhcpOptionRetrieve res Tag.dhcpMessageType).isSome ∧
      ∀ raw, Shows raw d →
        ∃ fuel, Loop.run (parseBody raw) fuel ⟨i, dest, false⟩ = some ⟨j, res, false⟩ := by
  induction h with
  | @scanned i seen hi h53 =>
    intro dest hrec
    refine ⟨i, dest, (hrec _).mp h53, fun raw _ => ⟨1, Loop.run_done ?_ 0⟩⟩
    simp only [parseBody]
    rw [if_neg (by omega)]
  | @endMark i seen hi hin he h53 =>
    intro dest hrec
    refine ⟨i, dest, (hrec _).mp h53, fun raw hr => ⟨1, Loop.run_done ?_ 0⟩⟩
    have ht : raw.get i = Tag.endMark := (hr i hin).trans he
    simp only [parseBody, ht, if_pos hi]
    rw [if_neg (by decide), if_pos trivial]
  | @option i seen hi hin hp he hmax hfield hval _ ih =>
    intro dest hrec
    let raw₀ := packetOptions ((Buffer.zero packetSize).write 0 d.bytes)
    have h₀ : Shows raw₀ d := shows_overlay _ d
    have htag : (optionAt raw₀ i).tag = d.option i := h₀ i (by omega)
    obtain ⟨j, res, h53, hres⟩ := ih (dhcpOptionAdd dest (optionAt raw₀ i))
      (htag ▸ records_add hrec (optionAt raw₀ i))
    refine ⟨j, res, h53, fun raw hr => ?_⟩
    obtain ⟨fuel, hf⟩ := hres raw hr
    refine ⟨fuel + 1, ?_⟩
    have hl : raw.get (i + 1) = d.option (i + 1) := hr (i + 1) (by omega)
    have hov : overrunAt raw i = false := by
      simp only [overrunAt, hl, Bool.or_eq_false_iff, decide_eq_false_iff_not, not_lt]
      exact ⟨hmax, hfield⟩
    rw [Loop.run_next (pass_option hr _ hi hin hp he), hov,
      add_optionAt_congr hr h₀ hrec hin hval]
    exact hf

/-- The options field after `recv` into a buffer that was filled with one byte. -/
def fieldOver (d : Datagram) (fill : UInt8) : Buffer optionsFieldSize :=
  packetOptions ((Buffer.tabulate packetSize fun _ => fill).write 0 d.bytes)

theorem shows_fieldOver (d : Datagram) (fill : UInt8) : Shows (fieldOver d fill) d :=
  shows_overlay _ d

theorem fieldOver_get (fill : UInt8) {i : Nat} (hi : i < optionsFieldSize)
    (hout : d.bytes.length ≤ optionsOffset + i) : (fieldOver d fill).get i = fill := by
  have hp : optionsOffset + i < packetSize := by
    simp only [optionsOffset, packetSize, optionsFieldSize] at hi ⊢
    omega
  rw [fieldOver, packetOptions, Buffer.get_slice _ _ _ hi, get_overlay _ d hp,
    if_neg (by omega), Buffer.get_tabulate, if_pos hp]

/-- The scan from position `i` finds one list with option 53 whether the buffer held zeros or
ones before. -/
def ScansAlike (d : Datagram) (i : Nat) (dest : List DhcpOption) : Prop :=
  ∃ res, (dhcpOptionRetrieve res Tag.dhcpMessageType).isSome ∧
    ∀ fill : UInt8, fill = 0 ∨ fill = 255 → ∃ fuel j,
      Loop.run (parseBody (fieldOver d fill)) fuel ⟨i, dest, false⟩ = some ⟨j, res, false⟩

/-- A value that the datagram leaves open is stored differently over zeros and over ones. -/
theorem optionAt_fill_ne {i : Nat} {seen : List UInt8}
    (hlen : optionsOffset + i + 1 < d.bytes.length)
    (hmax : (d.option (i + 1)).toNat ≤ optionMaxLenght)
    (hfield : i + 2 + (d.option (i + 1)).toNat ≤ optionsFieldSize)
    (hv : ¬ValueGiven d i seen) :
    optionAt (fieldOver d 0) i ≠ optionAt (fieldOver d 255) i := by
  simp only [ValueGiven, not_or, not_and, not_le, not_lt] at hv
  obtain ⟨hout, -, hbool⟩ := hv
  set n := (d.option (i + 1)).toNat with hn
  have hshow := shows_fieldOver d
  have ht : ∀ fill, (fieldOver d fill).get i = d.option i := fun fill => hshow fill i (by omega)
  have hl : ∀ fill, (fieldOver d fill).get (i + 1) = d.option (i + 1) :=
    fun fill => hshow fill (i + 1) (by omega)
  have hpos : 0 < n := by omega
  -- the last value byte lies past the datagram, so it is the filler
  have hlast : ∀ fill, (fieldOver d fill).get (i + 2 + (n - 1)) = fill := by
    intro fill
    exact fieldOver_get fill (by omega) (by omega)
  set buf := fun fill => Buffer.tabulate optionMaxLenght fun k =>
    if k < n then (fieldOver d fill).get (i + 2 + k) else 0 with hbuf
  have hbuf_last : ∀ fill, (buf fill).get (n - 1) = fill := by
    intro fill
    rw [hbuf, Buffer.get_tabulate, if_pos (by omega), if_pos (by omega), hlast]
  intro heq
  have hval : parseOptionValue (dhcpOptionTagToType (d.option i)) (d.option (i + 1)) (buf 0) =
      parseOptionValue (dhcpOptionTagToType (d.option i)) (d.option (i + 1)) (buf 255) := by
    simpa only [optionAt, ht, hl] using congrArg DhcpOption.value heq
  have hbyte : ∀ k, (parseOptionValue (dhcpOptionTagToType (d.option i)) (d.option (i + 1))
      (buf 0)).get k = (parseOptionValue (dhcpOptionTagToType (d.option i)) (d.option (i + 1))
      (buf 255)).get k := fun k => by rw [hval]
  cases htype : dhcpOptionTagToType (d.option i) with
  | numeric | ip =>
    have h := hbyte 0
    rw [htype, parseOptionValue_number (by simp) hpos, parseOptionValue_number (by simp) hpos,
      ← hn, hbuf_last, hbuf_last] at h
    cases h
  | bool =>
    have h := hbyte 0
    have hfirst : ∀ fill, (buf fill).get 0 = fill := by
      intro fill
      have hout' := hbool htype
      rw [hbuf, Buffer.get_tabulate, if_pos (by decide), if_pos hpos]
      exact fieldOver_get fill (by omega) (by omega)
    rw [htype, parseOptionValue_bool, parseOptionValue_bool, hfirst, hfirst] at h
    cases h
  | string | bin =>
    have h := hbyte (n - 1)
    rw [htype, parseOptionValue_bytes (by simp) (by omega) (by omega),
      parseOptionValue_bytes (by simp) (by omega) (by omega), hbuf_last, hbuf_last] at h
    cases h

section Alike

variable {i : Nat} {seen : List UInt8} {dest : List DhcpOption}

/-- A scan that ends at once has found option 53 before. -/
theorem ScansAlike.found (h : ScansAlike d i dest)
    (hb : parseBody (fieldOver d 0) ⟨i, dest, false⟩ = .done ⟨i, dest, false⟩) :
    (dhcpOptionRetrieve dest Tag.dhcpMessageType).isSome := by
  obtain ⟨res, h53, hrun⟩ := h
  obtain ⟨fuel, j, h0⟩ := hrun 0 (.inl rfl)
  have he := Loop.run_unique h0 (Loop.run_done hb 0)
  have hd : res = dest := congrArg ParseState.dest he
  exact hd ▸ h53

/-- Zeros behind the datagram would be pad bytes, at which the scan never ends. -/
theorem ScansAlike.inside (h : ScansAlike d i dest) (hi : i < packetOptionsSize) :
    optionsOffset + i < d.bytes.length ∧ d.option i ≠ Tag.pad := by
  obtain ⟨res, -, hrun⟩ := h
  obtain ⟨fuel, j, h0⟩ := hrun 0 (.inl rfl)
  have hnopad : (fieldOver d 0).get i ≠ Tag.pad := by
    intro hp
    exact Loop.not_terminates_of_stuck (parseBody_pad (s := ⟨i, dest, false⟩) hi hp)
      ⟨fuel, by rw [h0]; rfl⟩
  have hin : optionsOffset + i < d.bytes.length := by
    by_contra hout
    exact hnopad (fieldOver_get 0 (hi.trans (by decide)) (by omega))
  rw [shows_fieldOver d 0 i hin] at hnopad
  exact ⟨hin, hnopad⟩

/-- A scan without an overrun has none at the option it passes over first, and goes on behind it. -/
theorem run_option {raw : Buffer optionsFieldSize} {fuel j : Nat} {res : List DhcpOption}
    (hr : Loop.run (parseBody raw) fuel ⟨i, dest, false⟩ = some ⟨j, res, false⟩)
    (hi : i < packetOptionsSize) (hp : raw.get i ≠ Tag.pad) (he : raw.get i ≠ Tag.endMark) :
    overrunAt raw i = false ∧ ∃ fuel, Loop.run (parseBody raw) fuel
      ⟨i + 2 + (raw.get (i + 1)).toNat, dhcpOptionAdd dest (optionAt raw i), false⟩ =
        some ⟨j, res, false⟩ := by
  have hb := parseBody_option (s := ⟨i, dest, false⟩) hi hp he
  cases fuel with
  | zero => simp [Loop.run] at hr
  | succ fuel =>
    rw [Loop.run_next hb] at hr
    have hok : overrunAt raw i = false := by
      by_contra hov
      have hst := overrun_stays (scan_result hr) (by simpa using hov)
      cases hst
    rw [hok] at hr
    exact ⟨hok, fuel, hr⟩

/-- The length byte is inside, for ones in its place would make an overrun, and the length fits. -/
theorem ScansAlike.length (h : ScansAlike d i dest) (hi : i < packetOptionsSize)
    (he : d.option i ≠ Tag.endMark) : optionsOffset + i + 1 < d.bytes.length ∧
      (d.option (i + 1)).toNat ≤ optionMaxLenght ∧
      i + 2 + (d.option (i + 1)).toNat ≤ optionsFieldSize := by
  obtain ⟨hin, hp⟩ := h.inside hi
  obtain ⟨res, -, hrun⟩ := h
  have hok : ∀ fill : UInt8, fill = 0 ∨ fill = 255 → overrunAt (fieldOver d fill) i = false := by
    intro fill hfill
    obtain ⟨fuel, j, hr⟩ := hrun fill hfill
    have ht : (fieldOver d fill).get i = d.option i := shows_fieldOver d fill i hin
    exact (run_option hr hi (by rwa [ht]) (by rwa [ht])).1
  have hlen : optionsOffset + i + 1 < d.bytes.length := by
    by_contra hout
    have hf : i + 1 < optionsFieldSize := by
      simp only [packetOptionsSize, optionsFieldSize] at hi ⊢
      omega
    have hl : (fieldOver d 255).get (i + 1) = 255 := fieldOver_get 255 hf (by omega)
    have hov := hok 255 (.inr rfl)
    simp [overrunAt, hl, optionMaxLenght] at hov
  have hl : (fieldOver d 0).get (i + 1) = d.option (i + 1) := shows_fieldOver d 0 (i + 1) (by omega)
  have hfit := hok 0 (.inl rfl)
  simp only [overrunAt, hl, Bool.or_eq_false_iff, decide_eq_false_iff_not, not_lt] at hfit
  exact ⟨hlen, hfit⟩

/-- Over either filler the scan goes on behind the option. -/
theorem ScansAlike.goes (h : ScansAlike d i dest) (hi : i < packetOptionsSize)
    (he : d.option i ≠ Tag.endMark) :
    ∃ res, (dhcpOptionRetrieve res Tag.dhcpMessageType).isSome ∧
      ∀ fill : UInt8, fill = 0 ∨ fill = 255 → ∃ fuel j, Loop.run (parseBody (fieldOver d fill)) fuel
        ⟨i + 2 + (d.option (i + 1)).toNat, dhcpOptionAdd dest (optionAt (fieldOver d fill) i),
          false⟩ = some ⟨j, res, false⟩ := by
  obtain ⟨hin, hp⟩ := h.inside hi
  obtain ⟨hlen, -⟩ := h.length hi he
  obtain ⟨res, h53, hrun⟩ := h
  refine ⟨res, h53, fun fill hfill => ?_⟩
  obtain ⟨fuel, j, hr⟩ := hrun fill hfill
  have ht : (fieldOver d fill).get i = d.option i := shows_fieldOver d fill i hin
  have hl : (fieldOver d fill).get (i + 1) = d.option (i + 1) :=
    shows_fieldOver d fill (i + 1) (by omega)
  obtain ⟨-, fuel', hr'⟩ := run_option hr hi (by rwa [ht]) (by rwa [ht])
  rw [hl] at hr'
  exact ⟨fuel', j, hr'⟩

/-- A value that is stored does not depend on the filler, so it is given. -/
theorem ScansAlike.valueGiven (hrec : Records seen dest) (h : ScansAlike d i dest)
    (hi : i < packetOptionsSize) (he : d.option i ≠ Tag.endMark) : ValueGiven d i seen := by
  obtain ⟨hlen, hmax, hfield⟩ := h.length hi he
  obtain ⟨res, -, hnext⟩ := h.goes hi he
  by_contra hv
  have hnew : d.option i ∉ seen := fun hs => hv (.inr (.inl hs))
  have hnone : dhcpOptionRetrieve dest (d.option i) = none := by
    by_contra hs
    exact hnew ((hrec _).mpr (Option.isSome_iff_ne_none.mpr hs))
  have hfound : ∀ fill : UInt8, fill = 0 ∨ fill = 255 →
      dhcpOptionRetrieve res (d.option i) = some (optionAt (fieldOver d fill) i) := by
    intro fill hfill
    obtain ⟨fuel, j, hr⟩ := hnext fill hfill
    have htag : (optionAt (fieldOver d fill) i).tag = d.option i :=
      shows_fieldOver d fill i (by omega)
    refine retrieve_stays (scan_result hr) ?_
    simp only [dhcpOptionAdd, htag, hnone]
    simp only [dhcpOptionRetrieve] at hnone ⊢
    simp [hnone, htag]
  have heq := (hfound 0 (.inl rfl)).symm.trans (hfound 255 (.inr rfl))
  exact optionAt_fill_ne hlen hmax hfield hv (Option.some.inj heq)

theorem ScansAlike.next (hrec : Records seen dest) (h : ScansAlike d i dest)
    (hi : i < packetOptionsSize) (he : d.option i ≠ Tag.endMark) :
    ScansAlike d (i + 2 + (d.option (i + 1)).toNat)
      (dhcpOptionAdd dest (optionAt (fieldOver d 0) i)) := by
  obtain ⟨hlen, -⟩ := h.length hi he
  have hval := h.valueGiven hrec hi he
  obtain ⟨res, h53, hnext⟩ := h.goes hi he
  refine ⟨res, h53, fun fill hfill => ?_⟩
  obtain ⟨fuel, j, hr⟩ := hnext fill hfill
  rw [add_optionAt_congr (shows_fieldOver d fill) (shows_fieldOver d 0) hrec hlen hval] at hr
  exact ⟨fuel, j, hr⟩

end Alike

/-- Conversely, options that scan alike over zeros and over ones are complete. -/
theorem complete_of_scansAlike {i : Nat} {seen : List UInt8} {dest : List DhcpOption}
    (hrec : Records seen dest) (h : ScansAlike d i dest) : Complete d i seen := by
  -- by the distance to the end of the scanned part
  induction hk : packetOptionsSize - i using Nat.strong_induction_on generalizing i seen dest with
  | _ k ih =>
    by_cases hi : i < packetOptionsSize
    swap
    · have hb : parseBody (fieldOver d 0) ⟨i, dest, false⟩ = .done ⟨i, dest, false⟩ := by
        simp only [parseBody]
        rw [if_neg hi]
      exact .scanned (by omega) ((hrec _).mpr (h.found hb))
    obtain ⟨hin, hp⟩ := h.inside hi
    have ht : (fieldOver d 0).get i = d.option i := shows_fieldOver d 0 i hin
    by_cases he : d.option i = Tag.endMark
    · have hb : parseBody (fieldOver d 0) ⟨i, dest, false⟩ = .done ⟨i, dest, false⟩ := by
        simp only [parseBody, ht, he, if_pos hi]
        rw [if_neg (by decide), if_pos trivial]
      exact .endMark hi hin he ((hrec _).mpr (h.found hb))
    obtain ⟨hlen, hmax, hfield⟩ := h.length hi he
    refine .option hi hlen hp he hmax hfield (h.valueGiven hrec hi he) ?_
    have hnext := records_add hrec (optionAt (fieldOver d 0) i)
    rw [show (optionAt (fieldOver d 0) i).tag = d.option i from ht] at hnext
    exact ih _ (by omega) hnext (h.next hrec hi he) rfl

end Complete

section Main

variable {d : Datagram} {m : Message}

/-- Only the first 16 bytes of `chaddr` are ever written. -/
theorem messageBuffer_chaddr (h : MessageBuffer m) {i : Nat} (hi : 16 ≤ i) : m.chaddr.get i = 0 := by
  induction h with
  | fresh => simp [dhcpMessageNew]
  | @received m m' ok d time _ hr ih =>
    have hhead : m'.chaddr = m.chaddr.write 0 ((m.packet.write 0 d.bytes).slice 28 16).data := by
      obtain ⟨_, _, rfl⟩ | ⟨_, options, _, ⟨_, _, rfl⟩ | ⟨o, _, _, rfl⟩⟩ :=
        dhcpPacketParse_cases hr <;> simp
    by_cases hb : i < chaddrLen
    · rw [setTime_chaddr, hhead, Buffer.get_write _ _ _ _ hb,
        if_neg (by simp only [Buffer.length_data]; omega), ih]
    · exact Buffer.get_eq_zero _ _ (by omega)

/-- The header fields are functions of the header bytes and of the rest of `chaddr`. -/
theorem parseHeader_ext {n n' : Message}
    (hget : ∀ i, i < optionsOffset → n.packet.get i = n'.packet.get i)
    (hchaddr : (parseHeader n).chaddr = (parseHeader n').chaddr) :
    ((parseHeader n).parsed.setOptions []).setType 0 =
      ((parseHeader n').parsed.setOptions []).setType 0 := by
  have hoff : optionsOffset = 240 := rfl
  have hslice : ∀ off k, off + k ≤ optionsOffset →
      n.packet.slice off k = n'.packet.slice off k := by
    intro off k hk
    exact Buffer.slice_congr off k fun i hi => hget _ (by omega)
  have hread : ∀ off, off + 3 < optionsOffset → field32 n.packet off = field32 n'.packet off := by
    intro off ho
    simp (disch := omega) only [field32, hget]
  have hread' : ∀ off, off + 1 < optionsOffset → field16 n.packet off = field16 n'.packet off := by
    intro off ho
    simp (disch := omega) only [field16, hget]
  apply Message.ext
  case packet => simp [Message.parsed]
  case chaddr => simpa [Message.parsed] using hchaddr
  case sname => exact hslice 44 64 (by omega)
  case filename => exact hslice 108 128 (by omega)
  case opcode => exact hget 0 (by omega)
  case htype => exact hget 1 (by omega)
  case hlen => exact hget 2 (by omega)
  case hops => exact hget 3 (by omega)
  case secs | flags => exact hread' _ (by omega)
  case xid | ciaddr | yiaddr | siaddr | giaddr | cookie => exact hread _ (by omega)
  case type | dhcpOptions => simp
  case time => exact (rfl : (0 : UInt32) = 0)

/-- With the header inside the datagram, the header fields do not depend on the buffer. -/
theorem parseHeader_congr {m' : Message} (hd : optionsOffset ≤ d.bytes.length)
    (hm : MessageBuffer m) (hm' : MessageBuffer m') :
    ((parseHeader (m.setPacket (m.packet.write 0 d.bytes))).parsed.setOptions []).setType 0 =
      ((parseHeader (m'.setPacket (m'.packet.write 0 d.bytes))).parsed.setOptions []).setType 0 := by
  have hget : ∀ i, i < optionsOffset →
      (m.packet.write 0 d.bytes).get i = (m'.packet.write 0 d.bytes).get i := by
    intro i hi
    have hp : i < packetSize := hi.trans (by decide)
    rw [get_overlay _ d hp, get_overlay _ d hp, if_pos (by omega), if_pos (by omega)]
  refine parseHeader_ext (by simpa using hget) ?_
  have hslice : (m.packet.write 0 d.bytes).slice 28 16 = (m'.packet.write 0 d.bytes).slice 28 16 :=
    Buffer.slice_congr 28 16 fun i hi => hget _ (by simp only [optionsOffset]; omega)
  rw [parseHeader_chaddr, parseHeader_chaddr, setPacket_packet, setPacket_packet, hslice]
  apply Buffer.ext_get
  intro i hi
  rw [Buffer.get_write _ _ _ _ hi, Buffer.get_write _ _ _ _ hi]
  split
  · rfl
  · rename_i hout
    have h16 : 16 ≤ i := by simpa using hout
    rw [setPacket_chaddr, setPacket_chaddr, messageBuffer_chaddr hm h16,
      messageBuffer_chaddr hm' h16]

theorem cookie_overlay (p : Buffer packetSize) (hd : optionsOffset ≤ d.bytes.length) :
    field32 (p.write 0 d.bytes) 236 = be32 (d.bytes.getD 236 0) (d.bytes.getD 237 0)
      (d.bytes.getD 238 0) (d.bytes.getD 239 0) := by
  have hget : ∀ i, i < optionsOffset → (p.write 0 d.bytes).get i = d.bytes.getD i 0 := by
    intro i hi
    rw [get_overlay p d (hi.trans (by decide)), if_pos (by omega)]
  simp (disch := decide) only [field32, hget]

theorem dependsOnlyOn_of_selfContained (h : SelfContained d) : DependsOnlyOn d := by
  obtain ⟨j, res, h53, hrun⟩ := scan_of_complete h.options [] (by intro tag; simp [dhcpOptionRetrieve])
  obtain ⟨o, ho⟩ := Option.isSome_iff_exists.mp h53
  refine ⟨(true, ((parseHeader (dhcpMessageNew.setPacket
    (dhcpMessageNew.packet.write 0 d.bytes))).parsed.setOptions res).setType o.number), ?_⟩
  intro m hm
  obtain ⟨fuel, hf⟩ := hrun (packetOptions (m.packet.write 0 d.bytes)) (shows_overlay _ d)
  have hparse : dhcpOptionParse (packetOptions (m.packet.write 0 d.bytes)) = .ok res :=
    dhcpOptionParse_eq_ok.mpr ⟨fuel, j, hf⟩
  have hcookie : field32 (m.packet.write 0 d.bytes) 236 = magicCookie :=
    (cookie_overlay m.packet h.header).trans h.cookie
  have hrec : receive m d = .ok (true,
      ((parseHeader (m.setPacket (m.packet.write 0 d.bytes))).setOptions res).setType o.number) := by
    simp only [receive, dhcpPacketParse, parseHeader_cookie, parseHeader_packet, setPacket_packet,
      setOptions_dhcpOptions, hcookie, hparse, ho, ne_eq, not_true_eq_false, if_false, bind,
      Except.bind, pure, Except.pure]
  have hsame := congrArg (fun z : Message => (z.setOptions res).setType o.number)
    (parseHeader_congr h.header hm .fresh)
  simp only [setType_setOptions_setOptions] at hsame
  rw [hrec, Except.map, parsed_setType, parsed_setOptions, hsame]

/-- A datagram of 576 equal bytes has a wrong cookie: it is rejected and only fills the buffer. -/
theorem messageBuffer_filled {fill : UInt8} (hf : fill = 0 ∨ fill = 255) :
    ∃ m, MessageBuffer m ∧ m.packet = Buffer.tabulate packetSize fun _ => fill := by
  rcases hf with rfl | rfl
  · exact ⟨dhcpMessageNew, .fresh, rfl⟩
  · let ones : Datagram := ⟨List.replicate packetSize 255, by simp⟩
    have hpacket : dhcpMessageNew.packet.write 0 ones.bytes =
        Buffer.tabulate packetSize fun _ => 255 := by
      apply Buffer.ext_get
      intro i hi
      rw [get_overlay _ ones hi, Buffer.get_tabulate, if_pos hi]
      simp [ones, hi]
    have hcookie : field32 (dhcpMessageNew.packet.write 0 ones.bytes) 236 ≠ magicCookie := by
      rw [hpacket]
      simp only [field32, Buffer.get_tabulate]
      decide
    have hrec : receive dhcpMessageNew ones = .ok (false, parseHeader
        (dhcpMessageNew.setPacket (dhcpMessageNew.packet.write 0 ones.bytes))) := by
      rw [receive, dhcpPacketParse]
      exact if_pos hcookie
    exact ⟨_, .received ones 0 .fresh hrec, hpacket⟩

/-- A DISCOVER without a client: zeros, the cookie, option 53 and END. -/
def bareDiscover : Datagram :=
  ⟨List.replicate 236 0 ++ [0x63, 0x82, 0x53, 0x63, 53, 1, 1, 255], by decide +kernel⟩

/-- Some history leaves a type and an option list in the buffer. -/
theorem messageBuffer_used : ∃ m, MessageBuffer m ∧ m.type ≠ 0 ∧ m.dhcpOptions ≠ [] := by
  have heval : ((receive dhcpMessageNew bareDiscover).map
      fun r => (r.2.type, r.2.dhcpOptions.length)) = .ok (1, 1) := by decide +kernel
  obtain ⟨⟨ok, m⟩, hr, hm⟩ := map_ok.mp heval
  simp only [Prod.mk.injEq] at hm
  refine ⟨_, .received bareDiscover 0 .fresh hr, ?_, ?_⟩
  · simp [hm.1]
  · intro hnil
    rw [show m.dhcpOptions = [] from hnil] at hm
    exact absurd hm.2 (by decide)

/-- What the receive step yields, as a case split on the datagram laid over the buffer. -/
theorem receive_parsed {r : Bool × Message}
    (h : (receive m d).map (fun res => (res.1, res.2.parsed)) = .ok r) :
    r.2.cookie = field32 (m.packet.write 0 d.bytes) 236 ∧
    (r.2.cookie ≠ magicCookie → r.2.dhcpOptions = m.dhcpOptions) ∧
    (r.2.cookie = magicCookie →
      dhcpOptionParse (packetOptions (m.packet.write 0 d.bytes)) = .ok r.2.dhcpOptions ∧
      (dhcpOptionRetrieve r.2.dhcpOptions Tag.dhcpMessageType = none → r.2.type = m.type)) := by
  obtain ⟨⟨ok, m'⟩, hr, rfl⟩ := map_ok.mp h
  obtain ⟨hc, _, rfl⟩ | ⟨hc, options, ho, ⟨h53, _, rfl⟩ | ⟨o, h53, _, rfl⟩⟩ :=
    dhcpPacketParse_cases hr
  all_goals simp only [setPacket_packet] at hc
  · simp [hc]
  · simpa [hc] using ho
  · simpa [hc, h53] using ho

theorem selfContained_of_dependsOnlyOn (h : DependsOnlyOn d) : SelfContained d := by
  obtain ⟨r, hr⟩ := h
  have hfill : ∀ fill : UInt8, fill = 0 ∨ fill = 255 → ∃ m, MessageBuffer m ∧
      m.packet = Buffer.tabulate packetSize fun _ => fill := fun fill => messageBuffer_filled
  obtain ⟨m₀, hm₀, hp₀⟩ := hfill 0 (.inl rfl)
  obtain ⟨m₁, hm₁, hp₁⟩ := hfill 255 (.inr rfl)
  obtain ⟨hc₀, -, hgood₀⟩ := receive_parsed (hr m₀ hm₀)
  obtain ⟨hc₁, -, hgood₁⟩ := receive_parsed (hr m₁ hm₁)
  -- the last cookie byte would be the filler if the header were not whole
  have header : optionsOffset ≤ d.bytes.length := by
    by_contra hshort
    have hlast : ∀ fill : UInt8,
        ((Buffer.tabulate packetSize fun _ => fill).write 0 d.bytes).get 239 = fill := by
      intro fill
      rw [get_overlay _ d (by decide), if_neg (by simp only [optionsOffset] at hshort; omega),
        Buffer.get_tabulate, if_pos (by decide)]
    rw [hp₀] at hc₀
    rw [hp₁] at hc₁
    have hbytes := (be32_inj (hc₀.symm.trans hc₁)).2.2.2
    rw [hlast, hlast] at hbytes
    cases hbytes
  obtain ⟨mu, hmu, htype, hopts⟩ := messageBuffer_used
  obtain ⟨-, hbadu, hgoodu⟩ := receive_parsed (hr mu hmu)
  obtain ⟨-, hbadn, hgoodn⟩ := receive_parsed (hr _ .fresh)
  -- with a wrong cookie the option list would be the previous message's
  have hcookie : r.2.cookie = magicCookie := by
    by_contra hne
    exact hopts ((hbadu hne).symm.trans (hbadn hne))
  have h53 : (dhcpOptionRetrieve r.2.dhcpOptions Tag.dhcpMessageType).isSome := by
    by_contra hne
    have hnone := Option.not_isSome_iff_eq_none.mp hne
    exact htype (((hgoodu hcookie).2 hnone).symm.trans ((hgoodn hcookie).2 hnone))
  refine ⟨header, (cookie_overlay m₀.packet header).symm.trans (hc₀.symm.trans hcookie), ?_⟩
  have hnone : Records [] [] := by intro tag; simp [dhcpOptionRetrieve]
  refine complete_of_scansAlike hnone ⟨r.2.dhcpOptions, h53, fun fill hf => ?_⟩
  obtain ⟨m, hm, hp⟩ := hfill fill hf
  have hparse := ((receive_parsed (hr m hm)).2.2 hcookie).1
  rw [hp] at hparse
  exact dhcpOptionParse_eq_ok.mp hparse

end Main

/-- The parsed form of a received datagram is the same after every history of earlier packets
exactly when the datagram carries, by itself, a whole header with the magic cookie and all the
option bytes that are read and stored, option 53 among them. -/
theorem parsed_form_depends_only_on_datagram_iff (d : Datagram) :
    DependsOnlyOn d ↔ SelfContained d :=
  ⟨selfContained_of_dependsOnlyOn, dependsOnlyOn_of_selfContained⟩

/-- A DISCOVER cut off after its option 53. -/
def cutDiscover : Datagram :=
  ⟨List.replicate 236 0 ++ [0x63, 0x82, 0x53, 0x63, 53, 1, 1], by decide +kernel⟩

/-- Two packets of other clients: a REQUEST for 10.0.0.5, and one without an address. -/
def requestWithAddress : Datagram :=
  ⟨List.replicate 236 0 ++ [0x63, 0x82, 0x53, 0x63, 53, 1, 3, 50, 4, 10, 0, 0, 5, 255],
    by decide +kernel⟩

def requestWithoutAddress : Datagram :=
  ⟨List.replicate 236 0 ++ [0x63, 0x82, 0x53, 0x63, 53, 1, 3, 255], by decide +kernel⟩

/-- The option tags of the message that the second of two datagrams is parsed to. -/
def tagsAfter (earlier later : Datagram) : Except Fault (Bool × List UInt8) := do
  let (_, m) ← receive dhcpMessageNew earlier
  let (ok, m') ← receive m later
  return (ok, m'.dhcpOptions.map DhcpOption.tag)

/-- The same cut datagram is accepted with or without a requested address, depending on the
packet some other client sent before. -/
theorem cut_datagram_shows_earlier_packet :
    tagsAfter requestWithAddress cutDiscover = .ok (true, [53, 50]) ∧
    tagsAfter requestWithoutAddress cutDiscover = .ok (true, [53]) ∧
    ¬DependsOnlyOn cutDiscover := by
  refine ⟨by decide +kernel, by decide +kernel, ?_⟩
  intro h
  cases (selfContained_of_dependsOnlyOn h).options with
  | scanned hi _ => exact absurd hi (by decide)
  | endMark _ _ he _ => exact absurd he (by decide +kernel)
  | option _ _ _ _ _ _ _ hrest =>
    cases hrest with
    | scanned hi _ => exact absurd hi (by decide +kernel)
    | endMark _ hin _ _ => exact absurd hin (by decide +kernel)
    | option _ hin _ _ _ _ _ _ => exact absurd hin (by decide +kernel)

end DHCPServer
