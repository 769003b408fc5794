import DHCPServer.Server.Messages

namespace DHCPServer

/-- The same length and the same bytes. -/
def SameBytes (r d : DhcpOption) : Prop := r.lenght = d.lenght ∧ r.bytes = d.bytes

/-- What is expected of two messages of one transaction: the same parameter request lists, and the
same client identifiers if there are two. -/
structure Consistent (request discover : Message) : Prop where
  parameters : ∃ r d, request.option Tag.parameterRequestList = some r ∧
    discover.option Tag.parameterRequestList = some d ∧ SameBytes r d
  client : ∀ r d, request.option Tag.clientIdentifier = some r →
    discover.option Tag.clientIdentifier = some d → SameBytes r d

/-- The value buffers of the DISCOVER start with the values of the REQUEST. -/
structure StartsBuffers (request discover : Message) : Prop where
  parameters : ∃ r d, request.option Tag.parameterRequestList = some r ∧
    discover.option Tag.parameterRequestList = some d ∧ r.bytes <+: d.value.data
  client : ∀ r d, request.option Tag.clientIdentifier = some r →
    discover.option Tag.clientIdentifier = some d → r.bytes <+: d.value.data

/-- The values that are compared have the same lengths. -/
structure SameLengths (request discover : Message) : Prop where
  parameters : ∀ r d, request.option Tag.parameterRequestList = some r →
    discover.option Tag.parameterRequestList = some d → r.lenght = d.lenght
  client : ∀ r d, request.option Tag.clientIdentifier = some r →
    discover.option Tag.clientIdentifier = some d → r.lenght = d.lenght

section Consistency

variable {cache : TransactionCache} {request discover : Message} {r d : DhcpOption}

/-- The comparison only asks whether the buffer of the DISCOVER's option starts like this. -/
theorem sameValue_iff : sameValue r d = true ↔ r.bytes <+: d.value.data := by
  have hlen : r.bytes.length = min r.lenght.toNat d.value.data.length := by
    rw [DhcpOption.bytes, List.length_take, Buffer.length_data, Buffer.length_data]
  rw [sameValue, beq_iff_eq, List.prefix_iff_eq_take, hlen, ← List.take_eq_take_min]
  rfl

theorem sameBytes_iff : SameBytes r d ↔ r.bytes <+: d.value.data ∧ r.lenght = d.lenght := by
  constructor
  · intro ⟨hlen, hbytes⟩
    refine ⟨?_, hlen⟩
    rw [hbytes]
    exact List.take_prefix _ _
  · intro ⟨hstart, hlen⟩
    refine ⟨hlen, ?_⟩
    have h := sameValue_iff.mpr hstart
    rw [sameValue, beq_iff_eq] at h
    rw [DhcpOption.bytes, h, hlen, DhcpOption.bytes]

theorem validate_iff (hd : transCacheRetrieveMessage cache request.xid MsgType.discover =
    some discover) :
    validateClientIdAndRequestedParams cache request = true ↔ StartsBuffers request discover := by
  have hparts : StartsBuffers request discover ↔
      (∀ r d, request.option Tag.clientIdentifier = some r →
        discover.option Tag.clientIdentifier = some d → r.bytes <+: d.value.data) ∧
      ∃ r d, request.option Tag.parameterRequestList = some r ∧
        discover.option Tag.parameterRequestList = some d ∧ r.bytes <+: d.value.data :=
    ⟨fun h => ⟨h.client, h.parameters⟩, fun h => ⟨h.2, h.1⟩⟩
  rw [validateClientIdAndRequestedParams, hd, hparts]
  dsimp only
  rw [Bool.and_eq_true]
  apply and_congr
  · cases request.option Tag.clientIdentifier <;> cases discover.option Tag.clientIdentifier <;>
      simp [sameValue_iff]
  · cases request.option Tag.parameterRequestList <;>
      cases discover.option Tag.parameterRequestList <;> simp [sameValue_iff]

theorem consistent_iff :
    Consistent request discover ↔ StartsBuffers request discover ∧ SameLengths request discover := by
  constructor
  · intro ⟨⟨r, d, hr, hd, hsame⟩, hclient⟩
    refine ⟨⟨⟨r, d, hr, hd, (sameBytes_iff.mp hsame).1⟩, ?_⟩, ?_, ?_⟩
    · intro r' d' hr' hd'
      exact (sameBytes_iff.mp (hclient r' d' hr' hd')).1
    · intro r' d' hr' hd'
      rw [hr] at hr'
      rw [hd] at hd'
      cases hr'
      cases hd'
      exact hsame.1
    · intro r' d' hr' hd'
      exact (hclient r' d' hr' hd').1
  · intro ⟨⟨⟨r, d, hr, hd, hstart⟩, hclient⟩, hlengths⟩
    refine ⟨⟨r, d, hr, hd, sameBytes_iff.mpr ⟨hstart, hlengths.parameters r d hr hd⟩⟩, ?_⟩
    intro r' d' hr' hd'
    exact sameBytes_iff.mpr ⟨hclient r' d' hr' hd', hlengths.client r' d' hr' hd'⟩

/-- The check tells whether the two messages are consistent exactly if no value of the REQUEST is
the start of a buffer that holds a value of another length. -/
theorem consistency_check_iff (cache : TransactionCache) (request discover : Message)
    (hd : transCacheRetrieveMessage cache request.xid MsgType.discover = some discover) :
    (validateClientIdAndRequestedParams cache request = true ↔ Consistent request discover) ↔
      (StartsBuffers request discover → SameLengths request discover) := by
  rw [validate_iff hd, consistent_iff, iff_comm (a := StartsBuffers request discover)]
  exact and_iff_left_iff_imp

end Consistency

/-- A message of the transaction 7 that asks for the options `tags`. -/
def asksFor (type : UInt8) (tags : List UInt8) : Message :=
  { dhcpMessageNew with
    xid := 7
    type := type.toUInt32
    dhcpOptions := [dhcpOptionNewValues 53 1 [type],
      dhcpOptionNewValues 55 (UInt8.ofNat tags.length) tags] }

/-- The DISCOVER asks for the options 1, 3 and 6. -/
def threeAsked : TransactionCache :=
  (transCacheAddMessage 1000 (transCacheNew 1000 1 60) (asksFor 1 [1, 3, 6])).2

theorem threeAsked_retrieve : transCacheRetrieveMessage threeAsked 7 MsgType.discover =
    some ((asksFor 1 [1, 3, 6]).setTime 1000) := by decide +kernel

theorem same_list_checked :
    validateClientIdAndRequestedParams threeAsked (asksFor 3 [1, 3, 6]) = true ↔
      Consistent (asksFor 3 [1, 3, 6]) ((asksFor 1 [1, 3, 6]).setTime 1000) := by
  apply (consistency_check_iff threeAsked (asksFor 3 [1, 3, 6]) _ threeAsked_retrieve).mpr
  intro _
  constructor
  · intro r d hr hd
    cases hr
    cases hd
    rfl
  · intro r d hr
    cases hr

/-- The REQUEST asks for the first two of the three options. -/
theorem shorter_list_passes : ¬∀ cache request discover,
    transCacheRetrieveMessage cache request.xid MsgType.discover = some discover →
    (validateClientIdAndRequestedParams cache request = true ↔ Consistent request discover) := by
  intro h
  have hpasses : validateClientIdAndRequestedParams threeAsked (asksFor 3 [1, 3]) = true := by
    decide +kernel
  obtain ⟨⟨r, d, hr, hd, hlen, -⟩, -⟩ :=
    (h threeAsked (asksFor 3 [1, 3]) _ threeAsked_retrieve).mp hpasses
  cases hr
  cases hd
  exact absurd hlen (by decide)

end DHCPServer
