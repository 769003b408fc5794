import Mathlib.Data.Bool.AllAny
import DHCPServer.Packet.Codec
import DHCPServer.Server.Answers
import DHCPServer.Server.Startup

namespace DHCPServer

/-- An option as an administrator may configure it. -/
structure DhcpOption.Configurable (o : DhcpOption) : Prop where
  tag : 1 ≤ o.tag.toNat ∧ o.tag.toNat ≤ 254
  type : o.type = dhcpOptionTagToType o.tag
  lenght : match o.type with
    | .numeric | .ip => o.lenght.toNat ≤ 4
    | .bool => o.lenght.toNat = 1
    | .string | .bin => o.lenght.toNat ≤ optionMaxLenght

/-- All options of a configuration, the global ones and those of the pools. -/
structure Config.OptionsConfigurable (cfg : Config) : Prop where
  global : ∀ o ∈ cfg.options, o.Configurable
  pools : ∀ p ∈ cfg.pools, ∀ o ∈ p.options, o.Configurable

/-- What an option must satisfy to be read back from a packet. -/
structure DhcpOption.Carriable (o : DhcpOption) : Prop where
  tag : o.tag ≠ Tag.pad ∧ o.tag ≠ Tag.endMark
  lenght : o.lenght.toNat ≤ optionMaxLenght

namespace DhcpOption

variable {o : DhcpOption}

theorem Configurable.carriable (h : o.Configurable) : o.Carriable := by
  refine ⟨tag_ne_marks h.tag, ?_⟩
  have hl := h.lenght
  have hmax : 4 ≤ optionMaxLenght := by decide
  cases ht : o.type with
  | numeric | ip =>
    simp only [ht] at hl
    omega
  | bool =>
    simp only [ht] at hl
    omega
  | string | bin => simpa only [ht] using hl

theorem Carriable.copy (h : o.Carriable) : (dhcpOptionCopy o).Carriable := ⟨h.tag, h.lenght⟩

theorem carriable_newValues {tag lenght : UInt8} (ht : tag ≠ Tag.pad ∧ tag ≠ Tag.endMark)
    (hl : lenght.toNat ≤ optionMaxLenght) (value : List UInt8) :
    (dhcpOptionNewValues tag lenght value).Carriable := ⟨ht, hl⟩

theorem carriable_subnetMask (mask : UInt32) : (subnetMaskOption mask).Carriable :=
  ⟨(by decide : Tag.subnetMask ≠ Tag.pad ∧ Tag.subnetMask ≠ Tag.endMark),
    (by decide : (4 : UInt8).toNat ≤ optionMaxLenght)⟩

end DhcpOption

/-- All options a server can put into its replies. -/
structure AddressAllocator.OptionsCarriable (a : AddressAllocator) : Prop where
  global : ∀ o ∈ a.defaultOptions, o.Carriable
  pools : ∀ p ∈ a.addressPools, ∀ o ∈ p.dhcpOptionOverride, o.Carriable

section Configured

theorem foldl_dhcpOptionAdd_carriable {options dest : List DhcpOption}
    (hd : ∀ o ∈ dest, o.Carriable) (ho : ∀ o ∈ options, o.Carriable) :
    ∀ o ∈ options.foldl dhcpOptionAdd dest, o.Carriable := by
  induction options generalizing dest with
  | nil => exact hd
  | cons x options ih =>
    rw [List.foldl_cons]
    apply ih
    · intro o hmem
      rcases mem_dhcpOptionAdd hmem with hmem | rfl
      · exact hd o hmem
      · exact ho o (by simp)
    · intro o hmem
      exact ho o (by simp [hmem])

theorem optionsCarriable_of_shape {a a' : AddressAllocator} (h : a'.shape = a.shape)
    (ha : a.OptionsCarriable) : a'.OptionsCarriable := by
  have hglobal : a'.defaultOptions = a.defaultOptions := congrArg Prod.fst h
  refine ⟨hglobal ▸ ha.global, ?_⟩
  intro p hp o ho
  obtain ⟨q, hq, hshape⟩ := AddressAllocator.exists_same_shape h hp
  simp only [AddressPool.shape, Prod.mk.injEq] at hshape
  exact ha.pools q hq o (hshape.2.2.2.2 ▸ ho)

theorem startup_carriable {cfg : Config} (hcfg : cfg.OptionsConfigurable) (files : LeaseStore)
    (now : UInt32) : (startup cfg files now).allocator.OptionsCarriable := by
  refine optionsCarriable_of_shape (startup_shape cfg files now) ⟨?_, ?_⟩
  · show ∀ o ∈ initDhcpOptions cfg, o.Carriable
    intro o ho
    rcases mem_dhcpOptionAdd ho with ho | rfl
    · rcases mem_dhcpOptionAdd ho with ho | rfl
      · exact foldl_dhcpOptionAdd_carriable (by simp)
          (fun o ho => (hcfg.global o ho).carriable) o ho
      · exact DhcpOption.carriable_newValues (by decide) (by decide) _
    · exact DhcpOption.carriable_newValues (by decide) (by decide) _
  · -- the pools are made one by one, each with the subnet mask and its configured options
    refine configLoadPools_rule (P := fun a => ∀ p ∈ a.addressPools, ∀ o ∈ p.dhcpOptionOverride,
      o.Carriable) (by simp [addressAllocatorNew]) ?_
    intro a c hc pool ha hnew p hp
    rcases AddressAllocator.addPool_pools a (pool.addOptions c.options) with heq | ⟨-, heq⟩
    · exact ha p (heq ▸ hp)
    · rw [heq, List.mem_append, List.mem_singleton] at hp
      rcases hp with hp | rfl
      · exact ha p hp
      · obtain ⟨hshape, -⟩ := AddressPool.addressPoolNew_eq_some hnew
        simp only [AddressPool.shape, Prod.mk.injEq] at hshape
        apply foldl_dhcpOptionAdd_carriable
        · intro o ho
          rw [hshape.2.2.2.2, List.mem_singleton] at ho
          rw [ho]
          exact DhcpOption.carriable_subnetMask _
        · exact fun o ho => (hcfg.pools c hc o ho).carriable

theorem carriable_configured {a : AddressAllocator} (ha : a.OptionsCarriable) {p : AddressPool}
    (hp : p ∈ a.addressPools) {tag : UInt8} {o : DhcpOption}
    (h : configuredOption a.defaultOptions p.dhcpOptionOverride tag = some o) : o.Carriable := by
  unfold configuredOption at h
  split at h
  · rename_i o' ho
    cases h
    exact ha.pools p hp o (List.mem_of_find?_eq_some ho)
  · exact ha.global o (List.mem_of_find?_eq_some h)

end Configured

/-- The options of a reply: distinct, with the message type in front, some tags present and some
absent. -/
structure OptionsFor (type : UInt8) (has lacks : List UInt8) (options : List DhcpOption) :
    Prop where
  distinct : (options.map DhcpOption.tag).Nodup
  first : options.head? = some (dhcpOptionNewValues Tag.dhcpMessageType 1 [type])
  has : ∀ t ∈ has, (dhcpOptionRetrieve options t).isSome
  lacks : ∀ t ∈ lacks, dhcpOptionRetrieve options t = none
  carriable : ∀ o ∈ options, o.Carriable

section Options

variable {type : UInt8} {has lacks blacklisted required requested : List UInt8}
  {globalOptions poolOptions options : List DhcpOption}

theorem optionsFor_build
    (hcarry : ∀ tag o, configuredOption globalOptions poolOptions tag = some o → o.Carriable)
    (hhas : ∀ t ∈ has, t ∈ zeroTerminated required ∧ isOptionBlacklisted blacklisted t = false)
    (hlacks : ∀ t ∈ lacks, isOptionBlacklisted blacklisted t = true ∧ t ≠ Tag.dhcpMessageType)
    (h : dhcpOptionBuildRequiredOptions blacklisted globalOptions poolOptions [] requested
      required type = some options) : OptionsFor type has lacks options where
  distinct := build_distinct h
  first := build_first h
  has := fun t ht => build_required (hhas t ht).1 (hhas t ht).2 h
  lacks := fun t ht =>
    dhcpOptionRetrieve_eq_none.mpr (build_not_blacklisted (hlacks t ht).1 (hlacks t ht).2 h)
  carriable := build_all (DhcpOption.carriable_newValues (by decide) (by decide) _)
    (fun tag o ho => (hcarry tag o ho).copy) h

theorem OptionsFor.messageType (h : OptionsFor type has lacks options) :
    dhcpOptionRetrieve options Tag.dhcpMessageType =
      some (dhcpOptionNewValues Tag.dhcpMessageType 1 [type]) := by
  obtain ⟨rest, rfl⟩ := List.head?_eq_some_iff.mp h.first
  rfl

theorem OptionsFor.sendable (h : OptionsFor type has lacks options) : Sendable options :=
  ⟨fun o ho => (h.carriable o ho).tag, fun o ho => (h.carriable o ho).lenght, h.distinct⟩

/-- One more option at the end, with a tag that is neither there nor unwanted. -/
theorem OptionsFor.add {o : DhcpOption} (h : OptionsFor type has lacks options)
    (ho : o.Carriable) (hnew : o.tag ∉ lacks) : OptionsFor type has lacks (dhcpOptionAdd options o) where
  distinct := nodup_dhcpOptionAdd h.distinct o
  first := head?_dhcpOptionAdd o h.first
  has := fun t ht => retrieve_add_isSome o (h.has t ht)
  lacks := by
    intro t ht
    apply dhcpOptionRetrieve_eq_none.mpr
    intro x hx
    rcases mem_dhcpOptionAdd hx with hx | rfl
    · exact dhcpOptionRetrieve_eq_none.mp (h.lacks t ht) x hx
    · rintro rfl
      exact hnew ht
  carriable := by
    intro x hx
    rcases mem_dhcpOptionAdd hx with hx | rfl
    · exact h.carriable x hx
    · exact ho

/-- The options that the offer and the ack builders collect. -/
theorem optionsFor_getRequested {al : AddressAllocator} {m : Message} {a : UInt32}
    (hal : al.OptionsCarriable)
    (hhas : ∀ t ∈ has, t ∈ zeroTerminated required ∧ isOptionBlacklisted blacklisted t = false)
    (hlacks : ∀ t ∈ lacks, isOptionBlacklisted blacklisted t = true ∧ t ≠ Tag.dhcpMessageType)
    (h : getRequestedDhcpOptions required blacklisted type al m a = .ok (some options)) :
    OptionsFor type has lacks options := by
  obtain ⟨pool, requested, hpool, hbuild⟩ := getRequested_some h
  have hp : pool ∈ al.addressPools := List.mem_of_find?_eq_some hpool
  exact optionsFor_build (fun tag o ho => carriable_configured hal hp ho) hhas hlacks hbuild

end Options

/-- A packet as a client decodes it, into a fresh message. -/
def decode (p : Buffer packetSize) : Except Fault (Bool × Message) :=
  dhcpPacketParse (dhcpMessageNew.setPacket p)

/-- What a decoded reply to `m` must satisfy, whatever its kind. -/
structure CarriesReply (m : Message) (wire : UInt32) (has lacks : List UInt8) (d : Message) :
    Prop where
  xid : d.xid = m.xid
  chaddr : ∀ k, k < 16 → d.chaddr.get k = m.chaddr.get k
  distinct : (d.dhcpOptions.map DhcpOption.tag).Nodup
  first : d.dhcpOptions.head?.map DhcpOption.tag = some Tag.dhcpMessageType
  wireType : d.wireType = some wire
  has : ∀ t ∈ has, (d.option t).isSome
  lacks : ∀ t ∈ lacks, d.option t = none

section Decode

variable {m reply : Message} {type : UInt8} {has lacks : List UInt8}

theorem map_reparsed_tags (options : List DhcpOption) :
    (options.map DhcpOption.reparsed).map DhcpOption.tag = options.map DhcpOption.tag := by
  rw [List.map_map]
  rfl

/-- The message type of a reply comes back from a parse. -/
theorem number_reparsed_messageType (type : UInt8) :
    (dhcpOptionNewValues Tag.dhcpMessageType 1 [type]).reparsed.number = type.toUInt32 := by
  have hnumber := number_newValues Tag.dhcpMessageType type
  have hsmall : (dhcpOptionNewValues Tag.dhcpMessageType 1 [type]).number.toNat < 256 ^ 1 := by
    rw [hnumber, UInt8.toNat_toUInt32, pow_one]
    exact type.toNat_lt
  have hcanon : (dhcpOptionNewValues Tag.dhcpMessageType 1 [type]).Canonical :=
    ⟨rfl, (by decide : (1 : UInt8).toNat ≤ optionMaxLenght),
      ⟨(by decide : (1 : UInt8).toNat ≤ 4), hsmall⟩⟩
  rw [hcanon.sameOption.number (.inl rfl), hnumber]

/-- A reply that is built decodes, and what was said of its options holds of the decoded ones. -/
theorem decode_build (hbuilt : (dhcpPacketBuild reply).1 = true)
    (hopts : OptionsFor type has lacks reply.dhcpOptions) (hc : reply.cookie = magicCookie)
    (hxid : reply.xid = m.xid) (hch : reply.chaddr = m.chaddr) :
    ∃ d, decode (dhcpPacketBuild reply).2.packet = .ok (true, d) ∧
      CarriesReply m type.toUInt32 has lacks d ∧ d.yiaddr = reply.yiaddr ∧
      d.dhcpOptions = reply.dhcpOptions.map DhcpOption.reparsed := by
  have hfit := wireSize_of_build hc hbuilt
  let fresh := dhcpMessageNew.setPacket (dhcpPacketBuild reply).2.packet
  let type' := (dhcpOptionNewValues Tag.dhcpMessageType 1 [type]).reparsed.number
  have hpacket : fresh.packet = (dhcpPacketBuild reply).2.packet := rfl
  have hcarries : CarriesHeader reply fresh.packet := dhcpPacketBuild_header hc
  have hparse := dhcpPacketParse_build hc hopts.sendable hfit hopts.messageType hpacket
  have hheader := parseHeader_sameHeader hcarries (reply.dhcpOptions.map DhcpOption.reparsed) type'
  refine ⟨_, hparse, ?_, hheader.yiaddr, rfl⟩
  have hoption : ∀ t, (((parseHeader fresh).setOptions (reply.dhcpOptions.map
      DhcpOption.reparsed)).setType type').option t =
        (dhcpOptionRetrieve reply.dhcpOptions t).map DhcpOption.reparsed :=
    fun t => retrieve_reparsed reply.dhcpOptions t
  constructor
  case xid => exact hheader.xid.trans hxid
  case chaddr =>
    intro k hk
    rw [hheader.chaddr k hk, hch]
  case distinct =>
    show ((reply.dhcpOptions.map DhcpOption.reparsed).map DhcpOption.tag).Nodup
    rw [map_reparsed_tags]
    exact hopts.distinct
  case first =>
    show (reply.dhcpOptions.map DhcpOption.reparsed).head?.map DhcpOption.tag = _
    rw [List.head?_map, hopts.first]
    rfl
  case wireType =>
    rw [Message.wireType, hoption, hopts.messageType]
    exact congrArg some (number_reparsed_messageType type)
  case has =>
    intro t ht
    rw [hoption, Option.isSome_map]
    exact hopts.has t ht
  case lacks =>
    intro t ht
    rw [hoption, hopts.lacks t ht]
    rfl

end Decode

section ClientIdentifier

variable {raw : Buffer optionsFieldSize} {options : List DhcpOption} {o : DhcpOption}

/-- A client identifier that was parsed has nothing behind its bytes. -/
theorem canonical_clientIdentifier (h : dhcpOptionParse raw = .ok options) (ho : o ∈ options)
    (ht : o.tag = Tag.clientIdentifier) : o.Canonical ∧ o.type = .bin := by
  have hl := lenght_dhcpOptionParse h ho
  obtain ⟨i, rfl, -⟩ := mem_dhcpOptionParse h ho
  have hbin : dhcpOptionTagToType (raw.get i) = .bin := by
    rw [show raw.get i = Tag.clientIdentifier from ht]
    rfl
  refine ⟨⟨rfl, hl, ?_⟩, hbin⟩
  unfold DhcpOption.ValueCanonical
  rw [show (optionAt raw i).type = .bin from hbin]
  intro k _ hk
  show (parseOptionValue (dhcpOptionTagToType (raw.get i)) _ _).get k = 0
  rw [hbin]
  exact parseOptionValue_bytes_out (.inr rfl) hk

/-- The identifier's bytes are copied into a new option without change. -/
theorem newValues_of_canonical (hc : o.Canonical) (ht : o.type = .bin) :
    dhcpOptionNewValues o.tag o.lenght o.value.data = o := by
  have hzero : ∀ k, k < optionMaxLenght → o.lenght.toNat ≤ k → o.value.get k = 0 := by
    have hv := hc.value
    unfold DhcpOption.ValueCanonical at hv
    rwa [ht] at hv
  have hmax := hc.lenght
  have hlen : (o.value.data.take o.lenght.toNat).length = o.lenght.toNat := by simpa using hmax
  have hvalue : (Buffer.zero optionMaxLenght).write 0 (o.value.data.take o.lenght.toNat) =
      o.value := by
    apply Buffer.ext_get
    intro k hk
    by_cases hkl : k < o.lenght.toNat
    · have hin : ((Buffer.zero optionMaxLenght).write 0 (o.value.data.take o.lenght.toNat)).get
          (0 + k) = (o.value.data.take o.lenght.toNat).getD k 0 :=
        Buffer.get_write_in _ (by rwa [hlen]) (by omega)
      rw [Nat.zero_add] at hin
      rw [hin, List.getD_eq_getElem?_getD, List.getElem?_take_of_lt hkl,
        ← List.getD_eq_getElem?_getD, Buffer.getD_data]
    · rw [Buffer.get_write_out _ (.inr (by omega)), Buffer.get_zero, hzero k hk (by omega)]
  exact DhcpOption.ext hc.type.symm rfl rfl hvalue

/-- A parse of the identifier's own bytes gives the identifier. -/
theorem reparsed_of_canonical (hc : o.Canonical) (ht : o.type = .bin) : o.reparsed = o := by
  have hsame := hc.sameOption
  have hvalue : o.reparsed.value = o.value := hsame.bytes (by simp [ht]) (by simp [ht])
  exact DhcpOption.ext hsame.type rfl rfl hvalue

end ClientIdentifier

/-- A decoded packet conforms to the message it answers: it is an OFFER for a DISCOVER, an ACK or a
NAK for a REQUEST, an ACK without an address for an INFORM, each with the options it must have
and without those it must not have. -/
inductive Conforms (m d : Message) : Prop
  | offer : m.type = MsgType.discover → CarriesReply m MsgType.offer [51, 54] [50, 55, 57] d →
      d.option Tag.clientIdentifier = m.option Tag.clientIdentifier → Conforms m d
  | ack : m.type = MsgType.request → CarriesReply m MsgType.ack [51, 54] [50, 55, 57, 61] d →
      Conforms m d
  | inform : m.type = MsgType.inform → CarriesReply m MsgType.ack [54] [50, 51, 55, 57, 61] d →
      d.yiaddr = 0 → Conforms m d
  | nak : m.type = MsgType.request → CarriesReply m MsgType.nak [54] [] d →
      d.dhcpOptions.map DhcpOption.tag = [Tag.dhcpMessageType, Tag.serverIdentifier] → Conforms m d

section Conforms

variable {env : Env} {s : Server} {al : AddressAllocator} {m reply : Message}

/-- The options of an OFFER; the client identifier is the DISCOVER's. -/
theorem optionsFor_offer {a : UInt32} {options : List DhcpOption} (hal : al.OptionsCarriable)
    (hm : FromWire m) (h : offerOptions al m a = .ok (some options)) :
    OptionsFor 2 [51, 54] [50, 55, 57] options ∧
      (dhcpOptionRetrieve options Tag.clientIdentifier).map DhcpOption.reparsed =
        m.option Tag.clientIdentifier := by
  obtain ⟨built, hbuilt, hadded⟩ := offerOptions_collected h
  -- the collected options have no client identifier, whatever is configured and asked for
  have hopts : OptionsFor 2 [51, 54] [50, 55, 57, 61] built :=
    optionsFor_getRequested hal (List.all_iff_forall_prop.mp (by decide))
      (List.all_iff_forall_prop.mp (by decide)) hbuilt
  have hfor : OptionsFor 2 [51, 54] [50, 55, 57] built :=
    ⟨hopts.distinct, hopts.first, hopts.has, fun t ht => hopts.lacks t (by simp at ht ⊢; tauto),
      hopts.carriable⟩
  have hno : dhcpOptionRetrieve built Tag.clientIdentifier = none := hopts.lacks 61 (by simp)
  rcases hadded with ⟨h61, rfl⟩ | ⟨o61, h61, rfl⟩
  · exact ⟨hfor, by rw [hno, h61]; rfl⟩
  · have hmem : o61 ∈ m.dhcpOptions := List.mem_of_find?_eq_some h61
    have htag : o61.tag = Tag.clientIdentifier := dhcpOptionRetrieve_tag h61
    obtain ⟨hcanon, hbin⟩ := canonical_clientIdentifier hm.options hmem htag
    have hcopy : dhcpOptionNewValues Tag.clientIdentifier o61.lenght o61.value.data = o61 := by
      rw [← htag]
      exact newValues_of_canonical hcanon hbin
    rw [hcopy]
    refine ⟨hfor.add ⟨by rw [htag]; decide, hcanon.lenght⟩ (by rw [htag]; decide), ?_⟩
    have hadd : dhcpOptionAdd built o61 = built ++ [o61] := by
      rw [dhcpOptionAdd, htag, hno]
      rfl
    have hfind : dhcpOptionRetrieve (built ++ [o61]) Tag.clientIdentifier = some o61 := by
      unfold dhcpOptionRetrieve at hno ⊢
      rw [List.find?_append, hno]
      simp [htag]
    rw [hadd, hfind, h61, Option.map_some, reparsed_of_canonical hcanon hbin]

/-- Required or requested, nothing but options 53 and 54 gets into a NAK. -/
theorem nak_tags {options : List DhcpOption}
    (h : dhcpOptionBuildRequiredOptions [0] al.defaultOptions al.defaultOptions [] [0] [54, 0] 6 =
      some options) :
    options.map DhcpOption.tag = [Tag.dhcpMessageType, Tag.serverIdentifier] := by
  have hfirst : dhcpOptionAdd [] (dhcpOptionNewValues Tag.dhcpMessageType 1 [6]) =
      [dhcpOptionNewValues Tag.dhcpMessageType 1 [6]] := rfl
  have hrequired : zeroTerminated [54, 0] = [Tag.serverIdentifier] := rfl
  have hrequested : zeroTerminated [0] = [] := rfl
  have hallowed : isOptionBlacklisted [0] Tag.serverIdentifier = false := rfl
  simp only [dhcpOptionBuildRequiredOptions, hfirst, hrequired, hrequested, addRequired,
    addRequested, hallowed, Bool.false_eq_true, if_false] at h
  cases ho : configuredOption al.defaultOptions al.defaultOptions Tag.serverIdentifier with
  | none =>
    rw [ho] at h
    cases h
  | some o =>
    have htag : (dhcpOptionCopy o).tag = Tag.serverIdentifier := by
      rw [dhcpOptionCopy_tag]
      exact configuredOption_tag ho
    have hnew : dhcpOptionRetrieve [dhcpOptionNewValues Tag.dhcpMessageType 1 [6]]
        (dhcpOptionCopy o).tag = none := by
      rw [htag]
      rfl
    rw [ho] at h
    simp only [dhcpOptionAdd, hnew, Option.isSome_none, Bool.false_eq_true, if_false,
      Option.map_some, Option.some.injEq] at h
    rw [← h, List.map_append, List.map_singleton, List.map_singleton, htag]
    rfl

theorem nak_carriable (hal : al.OptionsCarriable) (tag : UInt8) (o : DhcpOption)
    (h : configuredOption al.defaultOptions al.defaultOptions tag = some o) : o.Carriable := by
  unfold configuredOption at h
  split at h
  · rename_i o' ho
    cases h
    exact hal.global o (List.mem_of_find?_eq_some ho)
  · exact hal.global o (List.mem_of_find?_eq_some h)

/-- Every answer that is built decodes to a conforming message. -/
theorem Answers.conforms (h : Answers env s m reply) (hal : s.allocator.OptionsCarriable)
    (hm : FromWire m) (hc : m.cookie = magicCookie) (hbuilt : (dhcpPacketBuild reply).1 = true) :
    ∃ d, decode (dhcpPacketBuild reply).2.packet = .ok (true, d) ∧ Conforms m d := by
  cases h with
  | offer ht hshape h =>
    obtain ⟨hopts, h61⟩ := optionsFor_offer (optionsCarriable_of_shape hshape hal) hm h
    obtain ⟨d, hd, hcarry, -, hoptions⟩ := decode_build (m := m) hbuilt hopts hc rfl rfl
    refine ⟨d, hd, .offer ht hcarry ?_⟩
    rw [Message.option, hoptions, retrieve_reparsed]
    exact h61
  | ack ht _ h =>
    have hopts : OptionsFor 5 [51, 54] [50, 55, 57, 61] _ :=
      optionsFor_getRequested hal (List.all_iff_forall_prop.mp (by decide))
        (List.all_iff_forall_prop.mp (by decide)) h
    obtain ⟨d, hd, hcarry, -, -⟩ := decode_build (m := m) hbuilt hopts hc rfl rfl
    exact ⟨d, hd, .ack ht hcarry⟩
  | inform ht h =>
    have hopts : OptionsFor 5 [54] [50, 51, 55, 57, 61] _ :=
      optionsFor_getRequested hal (List.all_iff_forall_prop.mp (by decide))
        (List.all_iff_forall_prop.mp (by decide)) h
    obtain ⟨d, hd, hcarry, hyiaddr, -⟩ := decode_build (m := m) hbuilt hopts hc rfl rfl
    exact ⟨d, hd, .inform ht hcarry hyiaddr⟩
  | nak ht h =>
    have hopts : OptionsFor 6 [54] [] _ :=
      optionsFor_build (nak_carriable hal) (List.all_iff_forall_prop.mp (by decide))
        (List.all_iff_forall_prop.mp (by decide)) h
    obtain ⟨d, hd, hcarry, -, hoptions⟩ := decode_build (m := m) hbuilt hopts hc rfl rfl
    refine ⟨d, hd, .nak ht hcarry ?_⟩
    rw [hoptions, map_reparsed_tags]
    exact nak_tags h

end Conforms

/-- The states in which the server of a configuration enters its loop. -/
def StartedWith (cfg : Config) (s : Server) : Prop := ∃ files now, s = startup cfg files now

/-- The options that a server can put into its replies stay those of its configuration. -/
theorem reachable_carriable {cfg : Config} (hcfg : cfg.OptionsConfigurable) {s : Server}
    (h : Reachable serve PassCondition.always.Holds (StartedWith cfg) s) :
    s.transCache.Sound ∧ s.allocator.OptionsCarriable := by
  refine run_rule (P := fun s => s.allocator.OptionsCarriable) ?_ ?_ ?_ ?_ ?_ h
  · intro s h
    obtain ⟨files, now, rfl⟩ := h
    exact ⟨startup_sound cfg files now, startup_carriable hcfg files now⟩
  · intro env s _ hs _
    exact optionsCarriable_of_shape (updateTimers_shape env s) hs
  · intro s s' hs hr _
    rwa [hr.allocator]
  · intro env s m s' _ hs hacc _
    rwa [hacc.allocator]
  · intro env s₀ s m s' rv _ _ hs _ _ heff
    exact optionsCarriable_of_shape heff.shape hs

/-- Each packet that a server with a proper configuration sends, in any pass from any reachable
state, decodes to a message that conforms to the client's message handled in that pass. -/
theorem replies_conform {cfg : Config} (hcfg : cfg.OptionsConfigurable) {s s' : Server} {e : Event}
    (h : Reachable serve PassCondition.always.Holds (StartedWith cfg) s)
    (hserve : serve s e = .ok s') :
    ∀ k ∈ s'.sent.drop s.sent.length, ∃ m s₂ d, handled s e = some (m, s₂) ∧
      decode k.message.packet = .ok (true, d) ∧ Conforms m d := by
  obtain ⟨hs, hal⟩ := reachable_carriable hcfg h
  intro k hk
  rcases serve_cases hs hserve with ⟨-, hr, -⟩ | ⟨m, s₂, rv, hh, hdisp⟩
  · rw [hr.sent, updateTimers_sent, List.drop_length] at hk
    cases hk
  · have hacc := handled_accepts hs hh
    have hsent : s₂.sent = s.sent := hacc.sent.trans (updateTimers_sent _ _)
    have hs₂ := hacc.adds.sound (update_cache_sound e.env hs)
    obtain ⟨hsame, -⟩ | ⟨reply, destination, hans, hbuilt, -, hnew, -⟩ := dispatch_sends hs₂ hdisp
    · rw [hsame, hsent, List.drop_length] at hk
      cases hk
    · rw [hnew, hsent, List.drop_left, List.mem_singleton] at hk
      have hal' : s₂.allocator.OptionsCarriable := by
        rw [hacc.allocator]
        exact optionsCarriable_of_shape (updateTimers_shape e.env s) hal
      obtain ⟨d, hd, hconf⟩ :=
        hans.conforms hal' (handled_fromWire hh) hacc.cookie hbuilt
      exact ⟨m, s₂, d, hh, by rw [hk]; exact hd, hconf⟩

/-- The small network with a message type, a client identifier and a router among its global
options, and with a lease time of its own in the pool. -/
def busyNetwork : Config :=
  { smallNetwork with
    pools := [⟨['a'], 0x0a000001, 0x0a000003, 0xffffff00,
      [dhcpOptionNewValues 51 4 (le32Bytes 60)]⟩]
    options := [dhcpOptionNewValues 53 1 [9], dhcpOptionNewValues 61 2 [1, 1],
      dhcpOptionNewValues 3 4 (le32Bytes 0x0a0000fe)] }

theorem busyNetwork_configurable : busyNetwork.OptionsConfigurable := by
  have hlease : (dhcpOptionNewValues 51 4 (le32Bytes 60)).Configurable :=
    ⟨by decide +kernel, by decide +kernel, (by decide +kernel : (4 : UInt8).toNat ≤ 4)⟩
  have htype : (dhcpOptionNewValues 53 1 [9]).Configurable :=
    ⟨by decide +kernel, by decide +kernel, (by decide +kernel : (1 : UInt8).toNat ≤ 4)⟩
  have hclient : (dhcpOptionNewValues 61 2 [1, 1]).Configurable :=
    ⟨by decide +kernel, by decide +kernel, (by decide +kernel : (2 : UInt8).toNat ≤ 253)⟩
  have hrouter : (dhcpOptionNewValues 3 4 (le32Bytes 0x0a0000fe)).Configurable :=
    ⟨by decide +kernel, by decide +kernel, (by decide +kernel : (4 : UInt8).toNat ≤ 4)⟩
  constructor
  · simp [busyNetwork, hclient, htype, hrouter]
  · simp [busyNetwork, hlease]

/-- A DISCOVER that asks for options 53, 61, 50, 3, 3 and 255 and has a client identifier. -/
def greedyDiscover : Event :=
  receives 1001 (clientPacket 7 0 [2, 0, 0, 0, 0, 1]
    [61, 3, 5, 6, 7, 53, 1, 1, 55, 6, 53, 61, 50, 3, 3, 255, 255])

/-- The OFFER that answers it. -/
theorem greedyDiscover_reply_conforms :
    ∃ s', serve (startup busyNetwork (fun _ => []) 1000) greedyDiscover = .ok s' ∧
      s'.sent.length = 1 ∧ ∀ k ∈ s'.sent.drop 0, ∃ m s₂ d,
        handled (startup busyNetwork (fun _ => []) 1000) greedyDiscover = some (m, s₂) ∧
        decode k.message.packet = .ok (true, d) ∧ Conforms m d := by
  have hany : (serve (startup busyNetwork (fun _ => []) 1000) greedyDiscover).toOption.any
      (fun s' => s'.sent.length == 1) = true := by decide +kernel
  obtain ⟨s', hserve, hq⟩ := exists_ok_of_any hany
  exact ⟨s', hserve, by simpa using hq,
    replies_conform busyNetwork_configurable (.start ⟨_, _, rfl⟩) hserve⟩

end DHCPServer
