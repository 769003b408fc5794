import DHCPServer.Properties.CachedTypes
import DHCPServer.Properties.LeasePeriod

namespace DHCPServer

/-- The lease time in the message's own packet: the value of option 51. -/
def Message.packetLeaseTime (m : Message) : Option UInt32 :=
  (findOption (packetOptions m.packet) Tag.ipAddressLeaseTime (packetOptionsSize + 1) 0).map
    DhcpOption.number

/-- The number that a receiver reads from a configured option. -/
def DhcpOption.wireNumber (o : DhcpOption) : UInt32 := (dhcpOptionCopy o).reparsed.number

section Second

variable {o₁ o₂ : DhcpOption} {rest : List DhcpOption} {raw : Buffer optionsFieldSize}

/-- An option that is written stands behind the ones before it, byte for byte. -/
theorem serializeFrom_at {front : List DhcpOption} {o : DhcpOption} {bytes : Nat}
    (hlen : (serializeOptionValue o).length = o.lenght.toNat)
    (hfit : (serializeFrom (front ++ o :: rest) bytes raw).1 = true)
    {k : Nat} (hk : k < 2 + o.lenght.toNat) :
    (serializeFrom (front ++ o :: rest) bytes raw).2.get (bytes + wireSize front + k) =
      (o.tag :: o.lenght :: serializeOptionValue o).getD k 0 := by
  induction front generalizing bytes raw with
  | nil =>
    rw [List.nil_append, serializeFrom] at hfit ⊢
    split at hfit
    · cases hfit
    · rename_i hnot
      have hsize : packetOptionsSize < optionsFieldSize := by decide
      have hzero : wireSize [] = 0 := rfl
      rw [if_neg hnot, hzero, Nat.add_zero, serializeFrom_before (by omega)]
      refine Buffer.get_write_in _ ?_ (by omega)
      rw [List.length_cons, List.length_cons, hlen]
      omega
  | cons o' front ih =>
    rw [List.cons_append, serializeFrom] at hfit ⊢
    split at hfit
    · cases hfit
    · rename_i hnot
      rw [if_neg hnot, wireSize_cons, ← ih hfit]
      congr 1
      omega

theorem length_serialize_number {o : DhcpOption} (h : o.type = .numeric) :
    (serializeOptionValue o).length = o.lenght.toNat := by
  simp [serializeOptionValue, h]

/-- The field of a packet that was built holds an option behind those before it. -/
theorem field_at {reply : Message} {before after : List DhcpOption} {o : DhcpOption}
    (hc : reply.cookie = magicCookie) (hbuilt : (dhcpPacketBuild reply).1 = true)
    (hopts : reply.dhcpOptions = before ++ o :: after)
    (hlen : (serializeOptionValue o).length = o.lenght.toNat) {k : Nat}
    (hk : k < 2 + o.lenght.toNat) :
    (packetOptions (dhcpPacketBuild reply).2.packet).get (wireSize before + k) =
      (o.tag :: o.lenght :: serializeOptionValue o).getD k 0 := by
  have hfit := wireSize_of_build hc hbuilt
  obtain ⟨raw, hfield⟩ := dhcpPacketBuild_field hc
  rw [hopts] at hfield hfit
  have hwritten : (serializeFrom (before ++ o :: after) 0 raw).1 = true := by
    apply serializeFrom_fits
    omega
  have hat := serializeFrom_at hlen hwritten hk
  rw [Nat.zero_add] at hat
  rw [hfield]
  exact hat

/-- The second option of a packet that was built is found at its place, whatever follows. -/
theorem findOption_second {reply : Message} (hc : reply.cookie = magicCookie)
    (hbuilt : (dhcpPacketBuild reply).1 = true) (hopts : reply.dhcpOptions = o₁ :: o₂ :: rest)
    (hlen₁ : (serializeOptionValue o₁).length = o₁.lenght.toNat)
    (hlen₂ : (serializeOptionValue o₂).length = o₂.lenght.toNat)
    (hmarks₁ : o₁.tag ≠ Tag.pad ∧ o₁.tag ≠ Tag.endMark)
    (hmarks₂ : o₂.tag ≠ Tag.pad ∧ o₂.tag ≠ Tag.endMark) (hne : o₁.tag ≠ o₂.tag) :
    findOption (packetOptions (dhcpPacketBuild reply).2.packet) o₂.tag (packetOptionsSize + 1) 0 =
      some o₂.reparsed := by
  have hfit := wireSize_of_build hc hbuilt
  rw [hopts, wireSize_cons, wireSize_cons] at hfit
  have hfirst := fun k hk => @field_at reply [] (o₂ :: rest) o₁ hc hbuilt hopts hlen₁ k hk
  have hsecond := fun k hk => @field_at reply [o₁] rest o₂ hc hbuilt hopts hlen₂ k hk
  have hplace : wireSize [o₁] = 2 + o₁.lenght.toNat := by simp [wireSize]
  rw [hplace] at hsecond
  set field := packetOptions (dhcpPacketBuild reply).2.packet
  have htag₁ : field.get 0 = o₁.tag := hfirst 0 (by omega)
  have hlenght₁ : field.get (0 + 1) = o₁.lenght := hfirst 1 (by omega)
  have htag₂ : field.get (2 + o₁.lenght.toNat) = o₂.tag := hsecond 0 (by omega)
  have hat : optionAt field (2 + o₁.lenght.toNat) = o₂.reparsed := by
    refine optionAt_of_bytes htag₂ (hsecond 1 (by omega)) ?_
    intro k hk
    have h := hsecond (k + 2) (by omega)
    rw [List.getD_cons_succ, List.getD_cons_succ] at h
    rw [← h]
    congr 1
    omega
  rw [findOption, if_pos (by decide), htag₁, if_neg hmarks₁.1, if_neg hmarks₁.2, if_neg hne,
    hlenght₁, Nat.zero_add]
  show findOption field o₂.tag (311 + 1) (2 + o₁.lenght.toNat) = _
  rw [findOption, if_pos (by omega), htag₂, if_neg hmarks₂.1, if_neg hmarks₂.2, if_pos rfl, hat]

end Second

section Configured

variable {o : DhcpOption} {globalOptions poolOptions options : List DhcpOption} {type : UInt8}
  {al : AddressAllocator} {m reply : Message} {x : UInt32}

/-- The number of an option of four bytes survives being copied and sent. -/
theorem wireNumber_of_four (htag : o.tag = Tag.ipAddressLeaseTime) (hlen : o.lenght = 4) :
    o.wireNumber = o.number := by
  have hfour : o.lenght.toNat = 4 := by
    rw [hlen]
    rfl
  have hlength : (o.value.data.take o.lenght.toNat).length = 4 := by
    rw [List.length_take, Buffer.length_data, hfour]
    rfl
  have hget : ∀ k, k < 4 → (dhcpOptionCopy o).value.get k = o.value.get k := by
    intro k hk
    have hin : 0 + k < optionMaxLenght := by
      simp only [optionMaxLenght]
      omega
    have h := Buffer.get_write_in (Buffer.zero optionMaxLenght) (hlength ▸ hk) hin
    rw [Nat.zero_add] at h
    refine h.trans ?_
    rw [List.getD_eq_getElem?_getD, hfour, List.getElem?_take_of_lt hk,
      ← List.getD_eq_getElem?_getD, Buffer.getD_data]
  have hcopy : (dhcpOptionCopy o).number = o.number := by
    unfold DhcpOption.number
    rw [hget 0 (by omega), hget 1 (by omega), hget 2 (by omega), hget 3 (by omega)]
  have htype : (dhcpOptionCopy o).type = .numeric := by
    show dhcpOptionTagToType o.tag = .numeric
    rw [htag]
    decide
  have hcanon : (dhcpOptionCopy o).Canonical := by
    refine ⟨rfl, ?_, ?_⟩
    · show o.lenght.toNat ≤ optionMaxLenght
      rw [hlen]
      decide
    · unfold DhcpOption.ValueCanonical
      rw [htype]
      show o.lenght.toNat ≤ 4 ∧ (dhcpOptionCopy o).number.toNat < 256 ^ o.lenght.toNat
      rw [hlen]
      exact ⟨by decide, (dhcpOptionCopy o).number.toNat_lt⟩
  rw [DhcpOption.wireNumber, hcanon.sameOption.number (.inl htype), hcopy]

/-- Adding options at the end keeps the first two. -/
theorem add_keeps_two {o₁ o₂ : DhcpOption} {dest : List DhcpOption} (option : DhcpOption)
    (h : ∃ rest, dest = o₁ :: o₂ :: rest) :
    ∃ rest, dhcpOptionAdd dest option = o₁ :: o₂ :: rest := by
  obtain ⟨rest, rfl⟩ := h
  unfold dhcpOptionAdd
  split
  · exact ⟨rest, rfl⟩
  · exact ⟨rest ++ [option], rfl⟩

/-- The options of an OFFER or of the ACK of a lease begin with the message type and the lease time
that is configured. -/
theorem build_leaseTime {requested : List UInt8}
    (h : dhcpOptionBuildRequiredOptions [50, 55, 61, 57, 0] globalOptions poolOptions [] requested
      [51, 54, 0] type = some options) :
    ∃ o51 rest, configuredOption globalOptions poolOptions Tag.ipAddressLeaseTime = some o51 ∧
      options = dhcpOptionNewValues Tag.dhcpMessageType 1 [type] :: dhcpOptionCopy o51 :: rest := by
  have hrequired : zeroTerminated [51, 54, 0] = [51, 54] := by decide
  have hfree : isOptionBlacklisted [50, 55, 61, 57, 0] 51 = false := by decide
  unfold dhcpOptionBuildRequiredOptions at h
  obtain ⟨dest, hdest, rfl⟩ := Option.map_eq_some_iff.mp h
  rw [hrequired, addRequired, hfree] at hdest
  simp only [Bool.false_eq_true, if_false] at hdest
  cases h51 : configuredOption globalOptions poolOptions 51 with
  | none =>
    rw [h51] at hdest
    cases hdest
  | some o51 =>
    simp only [h51] at hdest
    set o53 := dhcpOptionNewValues Tag.dhcpMessageType 1 [type] with ho53
    let P : List DhcpOption → Prop := fun dest => ∃ rest, dest = o53 :: dhcpOptionCopy o51 :: rest
    have htwo : P (dhcpOptionAdd (dhcpOptionAdd [] o53) (dhcpOptionCopy o51)) := by
      have htag : o51.tag = 51 := configuredOption_tag h51
      refine ⟨[], ?_⟩
      simp [dhcpOptionAdd, dhcpOptionRetrieve, htag, ho53, Tag.dhcpMessageType]
    have hreq := addRequired_rule (P := P) (fun _ _ _ hd _ _ => add_keeps_two _ hd) htwo hdest
    have hall : P (addRequested [50, 55, 61, 57, 0] globalOptions poolOptions
        (zeroTerminated requested) dest) :=
      addRequested_rule (P := P) (fun _ _ _ hd _ _ => add_keeps_two _ hd) hreq
    obtain ⟨rest, heq⟩ := hall
    exact ⟨o51, rest, h51, heq⟩

/-- A packet built from these options carries the configured lease time. -/
theorem packetLeaseTime_build {requested : List UInt8}
    (h : dhcpOptionBuildRequiredOptions [50, 55, 61, 57, 0] globalOptions poolOptions [] requested
      [51, 54, 0] type = some options)
    (hopts : ∃ added, reply.dhcpOptions = options ++ added)
    (hbuilt : (dhcpPacketBuild reply).1 = true) :
    ∃ o51, configuredOption globalOptions poolOptions Tag.ipAddressLeaseTime = some o51 ∧
      (dhcpPacketBuild reply).2.packetLeaseTime = some o51.wireNumber := by
  have hc : reply.cookie = magicCookie := by
    by_contra hc
    rw [dhcpPacketBuild, if_pos hc] at hbuilt
    cases hbuilt
  obtain ⟨o51, rest, h51, rfl⟩ := build_leaseTime h
  obtain ⟨added, hopts⟩ := hopts
  have htag : o51.tag = Tag.ipAddressLeaseTime := configuredOption_tag h51
  have htype : (dhcpOptionCopy o51).type = .numeric := by
    show dhcpOptionTagToType o51.tag = .numeric
    rw [htag]
    decide
  have hmarks : Tag.dhcpMessageType ≠ Tag.pad ∧ Tag.dhcpMessageType ≠ Tag.endMark := by decide
  have hmarks' : o51.tag ≠ Tag.pad ∧ o51.tag ≠ Tag.endMark := by
    rw [htag]
    decide
  have hne : Tag.dhcpMessageType ≠ o51.tag := by
    rw [htag]
    decide
  have hfound := findOption_second hc hbuilt hopts rfl (length_serialize_number htype) hmarks
    hmarks' hne
  have hcopy : (dhcpOptionCopy o51).tag = Tag.ipAddressLeaseTime := htag
  rw [hcopy] at hfound
  exact ⟨o51, h51, by rw [Message.packetLeaseTime, hfound]; rfl⟩

end Configured

/-- Option 51 has four bytes wherever it is configured. -/
structure FourByteLeaseTimes (a : AddressAllocator) : Prop where
  default : ∀ o ∈ a.defaultOptions, o.tag = Tag.ipAddressLeaseTime → o.lenght = 4
  override : ∀ p ∈ a.addressPools, ∀ o ∈ p.dhcpOptionOverride,
    o.tag = Tag.ipAddressLeaseTime → o.lenght = 4

instance (a : AddressAllocator) : Decidable (FourByteLeaseTimes a) :=
  decidable_of_iff ((∀ o ∈ a.defaultOptions, o.tag = Tag.ipAddressLeaseTime → o.lenght = 4) ∧
    ∀ p ∈ a.addressPools, ∀ o ∈ p.dhcpOptionOverride, o.tag = Tag.ipAddressLeaseTime → o.lenght = 4)
    ⟨fun h => ⟨h.1, h.2⟩, fun h => ⟨h.default, h.override⟩⟩

section Acks

variable {env : Env} {s s₁ s' : Server} {m : Message} {r : LeaseRecord} {t : UInt32} {k : Sent}

theorem FourByteLeaseTimes.configured {a : AddressAllocator} (h : FourByteLeaseTimes a)
    {p : AddressPool} (hp : p ∈ a.addressPools) {o : DhcpOption}
    (ho : configuredOption a.defaultOptions p.dhcpOptionOverride Tag.ipAddressLeaseTime = some o) :
    o.wireNumber = o.number := by
  have htag := configuredOption_tag ho
  apply wireNumber_of_four htag
  unfold configuredOption at ho
  cases hpool : dhcpOptionRetrieve p.dhcpOptionOverride Tag.ipAddressLeaseTime with
  | some o' =>
    rw [hpool] at ho
    cases ho
    exact h.override p hp o (List.mem_of_find?_eq_some hpool) htag
  | none =>
    rw [hpool] at ho
    exact h.default o (List.mem_of_find?_eq_some ho) htag

theorem answer_congr (h : s₁.sent = s.sent) : answer s₁ s' = answer s s' := by
  rw [answer, answer, h]

/-- An acknowledgement is built from the options that were collected for it. -/
theorem sendAck_answer {ok : Bool} {ack : Message}
    {collected : Except Fault (Option (List DhcpOption))} (hsent : s₁.sent = s.sent)
    (h : sendAck env s₁ ack collected = .ok (ok, s')) (hk : answer s s' = some k) :
    ∃ reply options, collected = .ok (some options) ∧ reply.dhcpOptions = options ∧
      k.message = (dhcpPacketBuild reply).2 ∧ (dhcpPacketBuild reply).1 = true := by
  have hdelivers := sendAck_delivers (P := fun reply => ∃ options,
    collected = .ok (some options) ∧ reply.dhcpOptions = options) h
    fun options hopts => ⟨options, hopts, rfl⟩
  obtain ⟨reply, ⟨options, hopts, hreply⟩, hmessage, hbuilt⟩ :=
    hdelivers.answer ((answer_congr hsent).trans hk)
  exact ⟨reply, options, hopts, hreply, hmessage, hbuilt⟩

/-- The acknowledgement of a lease that has been written is built from the options of the pool of
its address. -/
theorem WrittenLease.acked {rv : Int} (hw : WrittenLease env s m r t)
    (hh : messageDhcprequestHandle env s m = .ok (rv, s')) (hk : answer s s' = some k) :
    ∃ reply options, getRequestedDhcpOptions [51, 54, 0] [50, 55, 61, 57, 0] 5 s.allocator m
        r.address = .ok (some options) ∧ reply.dhcpOptions = options ∧
      k.message = (dhcpPacketBuild reply).2 ∧ (dhcpPacketBuild reply).1 = true := by
  obtain ⟨-, p, -, hrecord⟩ := hw.record
  unfold messageDhcprequestHandle at hh
  cases hw with
  | @commit o54 s₁ _ h54 hresp _ _ =>
    obtain ⟨-, -, hr⟩ | ⟨hnone, -⟩ := hrecord
    swap
    · rw [h54] at hnone
      cases hnone
    simp only [h54] at hh
    obtain ⟨⟨status, s₂⟩, hres, hh⟩ := seq_ok.mp hh
    rw [hresp] at hres
    cases hres
    obtain ⟨o50, h50, hh⟩ := seq_ok.mp hh
    rw [deref_eq_ok] at h50
    obtain ⟨⟨ok, s₂⟩, hack, hh⟩ := seq_ok.mp hh
    cases hh
    obtain ⟨-, -, -, -, -, -, q, -, -, rfl⟩ := response_ok hresp
    have haddr : r.address = o50.ip := by
      rw [hr]
      show retrieveClientAddress m s.transCache = o50.ip
      rw [retrieveClientAddress, h50]
    rw [haddr]
    exact sendAck_answer rfl hack hk
  | @renewal s₁ _ h54 hrenew _ _ =>
    obtain ⟨-, ⟨o54, hsome⟩, -⟩ | ⟨-, r₀, hr₀, hr⟩ := hrecord
    · rw [h54] at hsome
      cases hsome
    have haddr : r.address = m.ciaddr := by
      rw [hr]
      exact hr₀.address
    simp only [h54, getPool_ne_zero hr₀.pool, if_false] at hh
    obtain ⟨⟨ok, s₂⟩, hres, hh⟩ := seq_ok.mp hh
    rw [hrenew] at hres
    cases hres
    obtain ⟨⟨ok, s₂⟩, hack, hh⟩ := seq_ok.mp hh
    cases hh
    obtain ⟨-, q, r', -, -, rfl⟩ := renew_ok hrenew
    rw [haddr]
    exact sendAck_answer rfl hack hk

/-- The pool whose lease time a written record has is the one of its address. -/
theorem WrittenLease.pool (h : WrittenLease env s m r t) : ∃ p,
    allocatorGetPoolByAddress s.allocator r.address = some p ∧
      t = configuredLeaseTime s.allocator p := by
  obtain ⟨-, p, ht, ⟨hp, -, hr⟩ | ⟨-, r₀, hr₀, hr⟩⟩ := h.record
  · exact ⟨p, by rw [hr]; exact hp, ht⟩
  · refine ⟨p, ?_, ht⟩
    rw [hr]
    show allocatorGetPoolByAddress s.allocator r₀.address = some p
    rw [hr₀.address]
    exact hr₀.pool

end Acks

/-- The lease time in an acknowledgement is the one of the record that has been written. -/
theorem acked_lease_time_is_committed {env : Env} {s s' : Server} {m : Message} {r : LeaseRecord}
    {t : UInt32} {rv : Int} {k : Sent} (h51 : FourByteLeaseTimes s.allocator)
    (hw : WrittenLease env s m r t) (hh : messageDhcprequestHandle env s m = .ok (rv, s'))
    (hk : answer s s' = some k) :
    k.message.packetLeaseTime = some (r.leaseExpire - r.leaseStart) := by
  obtain ⟨p, hp, ht⟩ := hw.pool
  obtain ⟨hstart, hexpire⟩ := hw.period
  obtain ⟨reply, options, hopts, hreply, hmessage, hbuilt⟩ := hw.acked hh hk
  obtain ⟨q, requested, hq, hbuild⟩ := getRequested_some hopts
  obtain rfl : p = q := Option.some.inj (hp.symm.trans hq)
  have hadded : ∃ added, reply.dhcpOptions = options ++ added := ⟨[], by rw [hreply, List.append_nil]⟩
  obtain ⟨o51, ho51, htime⟩ := packetLeaseTime_build hbuild hadded hbuilt
  have hnumber : configuredLeaseTime s.allocator p = o51.number := by
    rw [configuredLeaseTime, ho51]
  have hperiod : r.leaseExpire - r.leaseStart = o51.number := by
    rw [hexpire, hstart, ht, hnumber]
    rw [UInt32.add_comm]
    exact UInt32.add_sub_cancel _ _
  rw [hmessage, htime, h51.configured (List.mem_of_find?_eq_some hp) ho51, hperiod]

/-- A client that was offered 10.0.0.1 accepts it. -/
theorem accepted_offer_lease_time : ∃ s m s₂ r t, ∃ k : Sent,
    handled s (requestBy 1002 7 1 1) = some (m, s₂) ∧
    WrittenLease (requestBy 1002 7 1 1).env s₂ m r t ∧
    k.message.packetLeaseTime = some (r.leaseExpire - r.leaseStart) := by
  have hany : (serve smallServer (discoverBy 1001 7 1)).toOption.any (fun s =>
      (handled s (requestBy 1002 7 1 1)).any fun x =>
        decide (FourByteLeaseTimes x.2.allocator) &&
        (x.1.option Tag.serverIdentifier).any (fun o54 =>
          (dhcpRequestResponseToOffer (requestBy 1002 7 1 1).env x.2 x.1 o54).toOption.any
            fun y => y.1 == .ok) &&
        (messageDhcprequestHandle (requestBy 1002 7 1 1).env x.2 x.1).toOption.any fun y =>
          (answer x.2 y.2).isSome) = true := by decide +kernel
  obtain ⟨s, -, hs⟩ := (Option.any_eq_true _ _).mp hany
  obtain ⟨⟨m, s₂⟩, hm, hq⟩ := (Option.any_eq_true _ _).mp hs
  simp only [Bool.and_eq_true, decide_eq_true_eq] at hq
  obtain ⟨⟨h51, hresp⟩, hrun⟩ := hq
  obtain ⟨o54, h54, hresp⟩ := (Option.any_eq_true _ _).mp hresp
  obtain ⟨⟨status, s₃⟩, hok, hstatus⟩ := exists_ok_of_any hresp
  obtain rfl : status = .ok := by simpa using hstatus
  obtain ⟨⟨rv, s'⟩, hs', hsome⟩ := exists_ok_of_any hrun
  obtain ⟨k, hk⟩ := Option.isSome_iff_exists.mp hsome
  have hwrites : WritesLease (requestBy 1002 7 1 1).env s₂ m :=
    .inl ⟨o54, s₃, h54, hok⟩
  obtain ⟨r, t, hw⟩ := hwrites.written
  exact ⟨s, m, s₂, r, t, k, hm, hw,
    acked_lease_time_is_committed h51 hw hs' hk⟩

end DHCPServer
