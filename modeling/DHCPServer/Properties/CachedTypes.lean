import DHCPServer.Properties.Replies

namespace DHCPServer

/-- The first option with the tag from an index on, found by stepping from option to option; PAD
bytes are stepped over. -/
def findOption (raw : Buffer optionsFieldSize) (tag : UInt8) : Nat → Nat → Option DhcpOption
  | 0, _ => none
  | fuel + 1, i =>
    if i < packetOptionsSize then
      if raw.get i = Tag.pad then findOption raw tag fuel (i + 1)
      else if raw.get i = Tag.endMark then none
      else if raw.get i = tag then some (optionAt raw i)
      else findOption raw tag fuel (i + 2 + (raw.get (i + 1)).toNat)
    else none

/-- The message type on the wire: the value of option 53 in the message's own packet. -/
def Message.packetType (m : Message) : Option UInt32 :=
  (findOption (packetOptions m.packet) Tag.dhcpMessageType (packetOptionsSize + 1) 0).map
    DhcpOption.number

section FindOption

variable {raw : Buffer optionsFieldSize} {tag : UInt8}

theorem retrieve_add_eq (dest : List DhcpOption) (o : DhcpOption) :
    dhcpOptionRetrieve (dhcpOptionAdd dest o) tag =
      (dhcpOptionRetrieve dest tag).or (if o.tag = tag then some o else none) := by
  unfold dhcpOptionAdd
  split
  · rename_i hsome
    by_cases ht : o.tag = tag
    · rw [ht] at hsome
      obtain ⟨x, hx⟩ := Option.isSome_iff_exists.mp hsome
      simp [hx]
    · simp [ht]
  · unfold dhcpOptionRetrieve
    rw [List.find?_append]
    congr 1
    by_cases ht : o.tag = tag
    · simp [ht]
    · simp [ht]

/-- A scan that ends has found what stepping through the field finds. -/
theorem findOption_of_run {fuel : Nat} {s r : ParseState}
    (h : Loop.run (parseBody raw) fuel s = some r) :
    dhcpOptionRetrieve r.dest tag =
      (dhcpOptionRetrieve s.dest tag).or (findOption raw tag fuel s.i) := by
  induction fuel generalizing s with
  | zero => cases h
  | succ fuel ih =>
    by_cases hi : s.i < packetOptionsSize
    · by_cases hp : raw.get s.i = Tag.pad
      · -- the scan would never have ended
        have hterm : Loop.Terminates (parseBody raw) s := ⟨fuel + 1, by rw [h]; rfl⟩
        exact absurd hterm (Loop.not_terminates_of_stuck (parseBody_pad hi hp))
      · by_cases he : raw.get s.i = Tag.endMark
        · have hne : Tag.endMark ≠ Tag.pad := by decide
          have hdone : parseBody raw s = .done s := by simp [parseBody, hi, he, hne]
          rw [Loop.run_done hdone] at h
          obtain rfl := Option.some.inj h
          simp [findOption, hi, he, hne]
        · rw [Loop.run_next (parseBody_option hi hp he)] at h
          rw [ih h, retrieve_add_eq, Option.or_assoc]
          congr 1
          simp only [findOption, hi, hp, he, if_true, if_false]
          by_cases ht : raw.get s.i = tag
          · simp [optionAt, ht]
          · simp [optionAt, ht]
    · have hdone : parseBody raw s = .done s := by simp [parseBody, hi]
      rw [Loop.run_done hdone] at h
      obtain rfl := Option.some.inj h
      simp [findOption, hi]

theorem findOption_of_parse {options : List DhcpOption} (h : dhcpOptionParse raw = .ok options) :
    findOption raw tag (packetOptionsSize + 1) 0 = dhcpOptionRetrieve options tag := by
  unfold dhcpOptionParse at h
  cases hr : Loop.run (parseBody raw) (packetOptionsSize + 1) parseEntry with
  | none =>
    rw [hr] at h
    cases h
  | some s =>
    simp only [hr] at h
    split at h
    · cases h
    · have hfound : dhcpOptionRetrieve s.dest tag =
          (dhcpOptionRetrieve parseEntry.dest tag).or
            (findOption raw tag (packetOptionsSize + 1) parseEntry.i) := findOption_of_run hr
      cases h
      exact hfound.symm

/-- The type of a received message is the one on the wire. -/
theorem FromWire.packetType {m : Message} (h : FromWire m) : m.packetType = some m.type := by
  rw [Message.packetType, findOption_of_parse h.options]
  exact h.type

/-- A packet whose first option is the message type has this type, whatever follows. -/
theorem packetType_build (reply : Message) (type : UInt8) (hc : reply.cookie = magicCookie)
    (hfirst : reply.dhcpOptions.head? = some (dhcpOptionNewValues Tag.dhcpMessageType 1 [type])) :
    (dhcpPacketBuild reply).2.packetType = some type.toUInt32 := by
  obtain ⟨rest, hopts⟩ := List.head?_eq_some_iff.mp hfirst
  obtain ⟨raw, hfield⟩ := dhcpPacketBuild_field hc
  set o53 := dhcpOptionNewValues Tag.dhcpMessageType 1 [type] with ho53
  -- the three bytes of option 53 stand at the front and are not written again
  have hbytes : ∀ k, k < 3 → (packetOptions (dhcpPacketBuild reply).2.packet).get k =
      (o53.tag :: o53.lenght :: serializeOptionValue o53).getD k 0 := by
    intro k hk
    have hnot : ¬0 + 2 + o53.lenght.toNat > packetOptionsSize :=
      (by decide : ¬0 + 2 + (1 : UInt8).toNat > packetOptionsSize)
    have hlen : (o53.tag :: o53.lenght :: serializeOptionValue o53).length = 3 := rfl
    rw [hfield, hopts, dhcpOptionsSerialize, serializeFrom, if_neg hnot,
      serializeFrom_before (show k < 0 + 2 + o53.lenght.toNat from hk)]
    have hin := Buffer.get_write_in raw (hlen ▸ hk)
      (show 0 + k < optionsFieldSize by simp only [optionsFieldSize]; omega)
    rwa [Nat.zero_add] at hin
  have htag : (packetOptions (dhcpPacketBuild reply).2.packet).get 0 = Tag.dhcpMessageType :=
    hbytes 0 (by omega)
  have hat : optionAt (packetOptions (dhcpPacketBuild reply).2.packet) 0 = o53.reparsed := by
    refine optionAt_of_bytes htag (hbytes 1 (by omega)) ?_
    intro k hk
    obtain rfl : k = 0 := Nat.lt_one_iff.mp hk
    exact hbytes 2 (by omega)
  have hpad : Tag.dhcpMessageType ≠ Tag.pad := by decide
  have hend : Tag.dhcpMessageType ≠ Tag.endMark := by decide
  rw [Message.packetType, findOption, if_pos (by decide), htag, if_neg hpad, if_neg hend,
    if_pos rfl, hat]
  exact congrArg some (number_reparsed_messageType type)

end FindOption

/-- The REQUEST `m` is going to be acknowledged: it gets past the checks, and its acknowledgement
can be built and sent. -/
def AckDue (env : Env) (s : Server) (m : Message) : Prop :=
  m.type = MsgType.request ∧ env.sends = true ∧ ∃ a options, Granted env s m a ∧
    getRequestedDhcpOptions [51, 54, 0] [50, 55, 61, 57, 0] 5 s.allocator m a =
      .ok (some options) ∧ wireSize options ≤ packetOptionsSize

/-- The passes in which no REQUEST is acknowledged. -/
def noRequestAcknowledged : PassCondition := ⟨fun _ _ => True, fun env s m => ¬AckDue env s m⟩

/-- The server has sent an ACK in the transaction: one that it has recorded there. -/
def AckSentIn (s : Server) (t : Transaction) : Prop :=
  ∃ k ∈ s.sent, k.message.packetType = some MsgType.ack ∧ ∃ time, k.message.setTime time ∈ t.messages

/-- In the running transactions the types of the messages are those on the wire, and the searches
for an ACK find one exactly where the server has sent one. -/
structure TypesAgree (s : Server) : Prop where
  types : ∀ t ∈ s.transCache, t.timer.isRunning = true → ∀ m ∈ t.messages,
    m.packetType = some m.type
  search : ∀ t ∈ s.transCache, t.timer.isRunning = true →
    ((transSearchFor t MsgType.ack).isSome ↔ AckSentIn s t)
  searchLast : ∀ t ∈ s.transCache, t.timer.isRunning = true →
    ((transSearchForLast t MsgType.ack).isSome ↔ AckSentIn s t)

/-- Whatever is sent in answer to a message is recorded in the transaction of this message. -/
def AnswersRecorded (s : Server) : Prop :=
  ∀ e m s₂ s' k, exchange s e = some (m, s₂, s', k) →
    ∃ t, transCacheRetrieveTransaction s'.transCache m.xid = some t ∧ m ∈ t.messages ∧
      k.message.setTime e.env.now ∈ t.messages

section Answered

variable {env : Env} {s : Server} {m reply : Message}

@[simp] theorem packetType_setTime (m : Message) (t : UInt32) :
    (m.setTime t).packetType = m.packetType := rfl

theorem type_build (m : Message) : (dhcpPacketBuild m).2.type = m.type := by
  obtain ⟨p, hp⟩ := dhcpPacketBuild_message m
  rw [hp]
  rfl

theorem getRequested_first {required blacklisted : List UInt8} {type : UInt8}
    {al : AddressAllocator} {a : UInt32} {options : List DhcpOption}
    (h : getRequestedDhcpOptions required blacklisted type al m a = .ok (some options)) :
    options.head? = some (dhcpOptionNewValues Tag.dhcpMessageType 1 [type]) := by
  obtain ⟨pool, requested, -, hbuild⟩ := getRequested_some h
  exact build_first hbuild

theorem offerOptions_first {al : AddressAllocator} {a : UInt32} {options : List DhcpOption}
    (h : offerOptions al m a = .ok (some options)) :
    options.head? = some (dhcpOptionNewValues Tag.dhcpMessageType 1 [2]) := by
  obtain ⟨built, hbuilt, hadded⟩ := offerOptions_collected h
  have hfirst := getRequested_first hbuilt
  rcases hadded with ⟨-, rfl⟩ | ⟨o61, -, rfl⟩
  · exact hfirst
  · exact head?_dhcpOptionAdd _ hfirst

/-- An answer other than an acknowledgement of a REQUEST has the type that stands in its
packet. -/
theorem Answers.packetType (h : Answers env s m reply) (hc : m.cookie = magicCookie)
    (hbuilt : (dhcpPacketBuild reply).1 = true) (hsends : env.sends = true)
    (hno : ¬AckDue env s m) :
    (dhcpPacketBuild reply).2.packetType = some (dhcpPacketBuild reply).2.type := by
  rw [type_build]
  cases h with
  | @offer al a siaddr options ht hshape h =>
    have hfirst : options.head? = some (dhcpOptionNewValues Tag.dhcpMessageType 1 [2]) :=
      offerOptions_first h
    exact packetType_build _ 2 hc hfirst
  | @ack ciaddr a siaddr giaddr options ht hgranted h =>
    have hfit : wireSize options ≤ packetOptionsSize :=
      wireSize_of_build (m := (replyTo m ciaddr a siaddr giaddr 0).setOptions options) hc hbuilt
    exact absurd ⟨ht, hsends, a, options, hgranted, h, hfit⟩ hno
  | inform ht h => exact packetType_build _ 5 hc (getRequested_first h)
  | nak ht h => exact packetType_build _ 6 hc (build_first h)

end Answered

/-- What is kept of every cached message: its type is the one on the wire, and if it is an ACK the
server has sent it. -/
def Recorded (s : Server) (m : Message) : Prop :=
  m.packetType = some m.type ∧
    (m.type = MsgType.ack → ∃ k ∈ s.sent, ∃ time, m = k.message.setTime time)

section Runs

variable {s : Server}

theorem recorded_of_sent {s' : Server} {m : Message} (h : Recorded s m)
    (hsent : ∀ k ∈ s.sent, k ∈ s'.sent) : Recorded s' m := by
  refine ⟨h.1, fun ht => ?_⟩
  obtain ⟨k, hk, htime⟩ := h.2 ht
  exact ⟨k, hsent k hk, htime⟩

/-- The condition on the passes, with what is known of every message that is handled. -/
theorem reachable_fromWire (h : Reachable serve noRequestAcknowledged.Holds Started s) :
    Reachable serve (PassCondition.Holds ⟨fun _ _ => True,
      fun env s m => FromWire m ∧ ¬AckDue env s m⟩) Started s := by
  refine h.mono fun s e hok => ⟨trivial, ?_⟩
  intro m s₂ hh
  exact ⟨handled_fromWire hh, hok.2 m s₂ hh⟩

theorem reachable_recorded (h : Reachable serve noRequestAcknowledged.Holds Started s) :
    s.transCache.Sound ∧ s.transCache.All (Recorded s) := by
  refine run_rule (P := fun s => s.transCache.All (Recorded s)) ?_ ?_ ?_ ?_ ?_
    (reachable_fromWire h)
  · intro s h
    obtain ⟨cfg, files, now, rfl⟩ := h
    exact ⟨startup_sound cfg files now, startup_all cfg files now _⟩
  · intro env s _ ha _
    have hsame : ∀ m, Recorded s m → Recorded (updateTimers env s) m := fun m hm =>
      recorded_of_sent hm (by rw [updateTimers_sent]; exact fun _ => id)
    rw [updateTimers_transCache]
    exact update_all fun t ht m hm => hsame m (ha t ht m hm)
  · intro s s' ha hr hc
    rw [hc]
    exact fun t ht m hm => recorded_of_sent (ha t ht m hm) (by rw [hr.sent]; exact fun _ => id)
  · intro env s m s' _ ha hacc hcond
    have hold : s.transCache.All (Recorded s') := fun t ht m hm =>
      recorded_of_sent (ha t ht m hm) (by rw [hacc.sent]; exact fun _ => id)
    exact hacc.adds.all hold ⟨hcond.1.packetType, fun ht => absurd ht hacc.notAck⟩
  · intro env s₀ s m s' rv hs hacc ha hcond hdisp _
    obtain ⟨hsame, hc⟩ | ⟨reply, destination, hans, hbuilt, hsends, hnew, hcache⟩ :=
      dispatch_sends hs hdisp
    · rw [hc]
      exact fun t ht m hm => recorded_of_sent (ha t ht m hm) (by rw [hsame]; exact fun _ => id)
    · have hold : s.transCache.All (Recorded s') := fun t ht m hm =>
        recorded_of_sent (ha t ht m hm) (by rw [hnew]; exact fun k hk => List.mem_append_left _ hk)
      rcases hcache with ⟨hc, -⟩ | hadds
      · rwa [hc]
      · refine hadds.all hold ⟨hans.packetType hacc.cookie hbuilt hsends hcond.2, fun _ => ?_⟩
        exact ⟨_, by rw [hnew]; exact List.mem_append_right _ List.mem_cons_self, env.now, rfl⟩

/-- An ACK stands in the transaction exactly if the server has sent one in it. -/
theorem ackSentIn_iff {t : Transaction} (ht : t ∈ s.transCache)
    (ha : s.transCache.All (Recorded s)) :
    (∃ m ∈ t.messages, m.type = MsgType.ack) ↔ AckSentIn s t := by
  constructor
  · intro h
    obtain ⟨m, hm, hack⟩ := h
    obtain ⟨hwire, hsent⟩ := ha t ht m hm
    obtain ⟨k, hk, time, rfl⟩ := hsent hack
    rw [packetType_setTime, hack] at hwire
    exact ⟨k, hk, hwire, time, hm⟩
  · intro h
    obtain ⟨k, -, hwire, time, hm⟩ := h
    obtain ⟨hagree, -⟩ := ha t ht _ hm
    rw [packetType_setTime, hwire] at hagree
    exact ⟨_, hm, (Option.some.inj hagree).symm⟩

theorem answers_recorded (hs : s.transCache.Sound) : AnswersRecorded s := by
  intro e m s₂ s' k hx
  obtain ⟨hh, rv, hdisp, hk⟩ := exchange_eq_some.mp hx
  have hacc := handled_accepts hs hh
  have hs₂ := hacc.adds.sound (update_cache_sound e.env hs)
  have hst := hacc.adds.stores
  obtain ⟨hsame, -⟩ | ⟨reply, destination, hans, -, -, hnew, hcache⟩ := dispatch_sends hs₂ hdisp
  · simp [answer, hsame] at hk
  · have hmessage : (dhcpPacketBuild reply).2 = k.message := by
      simp only [answer, hnew, List.drop_left, List.head?_cons, Option.some.injEq] at hk
      rw [← hk]
    have hxid : (dhcpPacketBuild reply).2.xid = m.xid := by
      obtain ⟨p, hp⟩ := dhcpPacketBuild_message reply
      rw [hp]
      exact hans.xid
    rcases hcache with ⟨-, hno⟩ | hadds
    · obtain ⟨t, ht, -⟩ := hst
      have htx : t.xid = m.xid := by simpa using List.find?_some ht
      exact absurd (htx.trans hans.xid.symm) (hno t (List.mem_of_find?_eq_some ht))
    · rw [hmessage] at hadds hxid
      exact hadds.joined hst hxid

/-- In every run in which no REQUEST is acknowledged, the cached types are those on the wire and an
ACK is found in a transaction exactly if the server has sent one in it. -/
theorem cached_types_agree (h : Reachable serve noRequestAcknowledged.Holds Started s) :
    TypesAgree s ∧ AnswersRecorded s := by
  obtain ⟨hs, ha⟩ := reachable_recorded h
  refine ⟨⟨?_, ?_, ?_⟩, answers_recorded hs⟩
  · intro t ht _ m hm
    exact (ha t ht m hm).1
  · intro t ht _
    exact searchFor_isSome.trans (ackSentIn_iff ht ha)
  · intro t ht _
    exact searchForLast_isSome.trans (ackSentIn_iff ht ha)

end Runs

/-- A client that has an address asks for more options. -/
def informBy (now xid address : UInt32) (client : UInt8) : Event :=
  receives now (clientPacket xid address [2, 0, 0, 0, 0, client] [53, 1, 8, 55, 1, 1, 255])

/-- The pass handles no REQUEST. -/
def handlesNoRequest (s : Server) (e : Event) : Bool :=
  (handled s e).all fun x => x.1.type != MsgType.request

theorem handlesNoRequest_allowed (s : Server) (e : Event) (h : handlesNoRequest s e = true) :
    noRequestAcknowledged.Holds s e := by
  refine ⟨trivial, ?_⟩
  intro m s₂ hh hdue
  rw [handlesNoRequest, hh] at h
  simp [hdue.1] at h

/-- A DISCOVER and an INFORM of another client: the two answers are cached with their types. -/
theorem discover_inform_types_agree :
    ∃ s, Reachable serve noRequestAcknowledged.Holds Started s ∧ s.sent.length = 2 ∧
      TypesAgree s ∧ AnswersRecorded s := by
  have hrun : ([discoverBy 1001 7 1, informBy 1002 8 0x0a000002 2].foldlM
      (Reachable.checked serve handlesNoRequest) smallServer).any
        (fun s => s.sent.length == 2) = true := by decide +kernel
  obtain ⟨s, hs, hlen⟩ := Reachable.of_run handlesNoRequest_allowed _ smallServer_started hrun
  exact ⟨s, hs, by simpa using hlen, cached_types_agree hs⟩

/-- An OFFER is accepted; the ACK is cached without its type and no search finds it. -/
theorem acknowledged_request_not_found :
    ¬∀ s, Reachable serve PassCondition.always.Holds Started s → TypesAgree s := by
  intro h
  have hrun : ([discoverBy 1001 7 1, requestBy 1002 7 1 1].foldlM
      (Reachable.checked serve fun _ _ => true) smallServer).any
        (fun s => s.transCache.any fun t => t.timer.isRunning &&
          t.messages.any fun m => m.packetType != some m.type) = true := by decide +kernel
  obtain ⟨s, hs, hq⟩ := Reachable.of_run (fun s e _ => PassCondition.always_holds s e) _
    smallServer_started hrun
  obtain ⟨t, ht, hq⟩ := List.any_eq_true.mp hq
  obtain ⟨hrunning, hq⟩ := Bool.and_eq_true_iff.mp hq
  obtain ⟨m, hm, hne⟩ := List.any_eq_true.mp hq
  exact absurd ((h s hs).types t ht hrunning m hm) (by simpa using hne)

end DHCPServer
