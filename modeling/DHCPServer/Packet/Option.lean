import DHCPServer.Framework.Buffer

namespace DHCPServer

/-- `DHCP_OPTION_MAX_LENGHT`: size of an option's value union. -/
def optionMaxLenght : Nat := 253

/-- `DHCP_PACKET_OPTIONS_SIZE`: how much of the options field is parsed and serialised. -/
def packetOptionsSize : Nat := 312

/-- Size of `dhcp_packet_t.options`. -/
def optionsFieldSize : Nat := 336

namespace Tag

def pad : UInt8 := 0
def subnetMask : UInt8 := 1
def requestedIpAddress : UInt8 := 50
def ipAddressLeaseTime : UInt8 := 51
def dhcpMessageType : UInt8 := 53
def serverIdentifier : UInt8 := 54
def parameterRequestList : UInt8 := 55
def maxDhcpMessageSize : UInt8 := 57
def clientIdentifier : UInt8 := 61
def endMark : UInt8 := 255

end Tag

/-- `enum dhcp_option_type` -/
inductive DhcpOptionType where
  | numeric
  | string
  | ip
  | bool
  | bin
  deriving DecidableEq, Repr

/-- `dhcp_option_t`. The members of the value union share their bytes, so the value is kept as
the byte array and the numeric members are read from it. -/
structure DhcpOption where
  type : DhcpOptionType
  tag : UInt8
  lenght : UInt8
  value : Buffer optionMaxLenght
  deriving DecidableEq

attribute [ext] DhcpOption

namespace DhcpOption

/-- `value.number` on a little-endian host. -/
def number (o : DhcpOption) : UInt32 :=
  le32 (o.value.get 0) (o.value.get 1) (o.value.get 2) (o.value.get 3)

/-- `value.ip`, the same bytes as `value.number`. -/
def ip (o : DhcpOption) : UInt32 := o.number

/-- The bytes of the value, as far as its length goes. -/
def bytes (o : DhcpOption) : List UInt8 := o.value.data.take o.lenght.toNat

end DhcpOption

def dhcpOptionTagToType (tag : UInt8) : DhcpOptionType :=
  -- IP forwarding, non-local source routing, router discovery, all subnets local, mask
  -- supplier, trailer encapsulation, mask discovery, 802.3 encapsulation, keepalive garbage
  if [19, 20, 31, 27, 30, 34, 29, 36, 39].contains tag then .bool
  -- subnet mask, router, requested address, server identifier, the server lists, swap server,
  -- broadcast address, router solicitation, static route, NIS, NTP, NetBIOS and X servers
  else if [1, 3, 50, 54, 4, 5, 6, 7, 8, 9, 10, 11, 16, 28, 32, 33, 41, 42, 44, 45, 48, 49].contains
      tag then .ip
  -- message type, time offset, boot file size, merit dump, reassembly size, lease time, TTLs,
  -- MTU values, keepalive interval, node type, renewal and rebinding times, ARP, overload
  else if [53, 2, 13, 14, 22, 51, 23, 24, 26, 37, 38, 46, 58, 59, 35, 52].contains tag then .numeric
  -- host and domain names, policy filter, NIS domain, user class, FQDN, paths, NetBIOS scope
  else if [12, 15, 21, 40, 77, 81, 17, 18, 47].contains tag then .string
  else .bin

/-- `dhcp_option_new_values`: `calloc`, then `lenght` bytes are copied into the value. -/
def dhcpOptionNewValues (tag lenght : UInt8) (value : List UInt8) : DhcpOption where
  type := dhcpOptionTagToType tag
  tag := tag
  lenght := lenght
  value := (Buffer.zero optionMaxLenght).write 0 (value.take lenght.toNat)

def dhcpOptionCopy (original : DhcpOption) : DhcpOption :=
  dhcpOptionNewValues original.tag original.lenght original.value.data

/-- `dhcp_option_retrieve`: the first option with the tag, NULL if there is none. -/
def dhcpOptionRetrieve (options : List DhcpOption) (tag : UInt8) : Option DhcpOption :=
  options.find? fun o => o.tag == tag

/-- `dhcp_option_add`: a duplicate tag is silently left out. -/
def dhcpOptionAdd (dest : List DhcpOption) (option : DhcpOption) : List DhcpOption :=
  if (dhcpOptionRetrieve dest option.tag).isSome then dest else dest ++ [option]

/-- `parse_option_value_numeric` and `parse_option_value_ip`: the first `lenght` bytes, most
significant first, shifted into 32 bits. -/
def parseNumber (lenght : UInt8) (v : Buffer optionMaxLenght) : UInt32 :=
  (List.range lenght.toNat).foldl (fun number i => (number <<< 8) ||| (v.get i).toUInt32) 0

/-- `parse_option_value` into the zeroed union of a fresh option. -/
def parseOptionValue (type : DhcpOptionType) (lenght : UInt8) (v : Buffer optionMaxLenght) :
    Buffer optionMaxLenght :=
  match type with
  | .numeric | .ip => (Buffer.zero optionMaxLenght).write 0 (le32Bytes (parseNumber lenght v))
  | .bool => (Buffer.zero optionMaxLenght).write 0 [if v.get 0 = 0 then 0 else 1]
  | .string | .bin => (Buffer.zero optionMaxLenght).write 0 (v.data.take lenght.toNat)

/-- `serialize_option_value`: `lenght` bytes for the wire. -/
def serializeOptionValue (o : DhcpOption) : List UInt8 :=
  match o.type with
  | .numeric | .ip =>
    (List.range o.lenght.toNat).map fun i =>
      UInt8.ofNat (o.number.toNat / 2 ^ (8 * (o.lenght.toNat - i - 1)))
  | .bin | .bool | .string => o.value.data.take o.lenght.toNat

/-- The loop of `dhcp_options_serialize` with `bytes` bytes written so far. -/
def serializeFrom : List DhcpOption → Nat → Buffer optionsFieldSize → Bool × Buffer optionsFieldSize
  | [], bytes, raw => (true, raw.write bytes [Tag.endMark])
  | o :: os, bytes, raw =>
    if bytes + 2 + o.lenght.toNat > packetOptionsSize then
      -- the option and all that follow it are given up, what is written stays terminated
      (false, raw.write bytes [Tag.endMark])
    else
      serializeFrom os (bytes + 2 + o.lenght.toNat)
        (raw.write bytes (o.tag :: o.lenght :: serializeOptionValue o))

/-- `dhcp_options_serialize`; `true` stands for the return value 0. -/
def dhcpOptionsSerialize (options : List DhcpOption) (raw : Buffer optionsFieldSize) :
    Bool × Buffer optionsFieldSize :=
  serializeFrom options 0 raw

/-- The bytes that options take in a packet, tags and lengths included. -/
def wireSize (options : List DhcpOption) : Nat := (options.map fun o => 2 + o.lenght.toNat).sum

theorem serializeFrom_fits {options : List DhcpOption} {bytes : Nat}
    (h : bytes + wireSize options ≤ packetOptionsSize) (raw : Buffer optionsFieldSize) :
    (serializeFrom options bytes raw).1 = true := by
  induction options generalizing bytes raw with
  | nil => rfl
  | cons o os ih =>
    rw [wireSize, List.map_cons, List.sum_cons] at h
    have hfit : ¬bytes + 2 + o.lenght.toNat > packetOptionsSize := by omega
    rw [serializeFrom, if_neg hfit]
    apply ih
    rw [wireSize]
    omega

/-- The part of a tag array before its terminating 0. -/
def zeroTerminated (tags : List UInt8) : List UInt8 := tags.takeWhile fun tag => tag != 0

/-- The pool's option if it has the tag, the global one otherwise. -/
def configuredOption (globalOptions poolOptions : List DhcpOption) (tag : UInt8) :
    Option DhcpOption :=
  match dhcpOptionRetrieve poolOptions tag with
  | some o => some o
  | none => dhcpOptionRetrieve globalOptions tag

section Build

variable (blacklisted : List UInt8) (globalOptions poolOptions : List DhcpOption)

/-- `is_option_blacklisted` -/
def isOptionBlacklisted (tag : UInt8) : Bool := (zeroTerminated blacklisted).contains tag

/-- The loop over the required tags: an option that is not configured fails the build. -/
def addRequired : List UInt8 → List DhcpOption → Option (List DhcpOption)
  | [], dest => some dest
  | tag :: tags, dest =>
    if isOptionBlacklisted blacklisted tag then addRequired tags dest
    else match configuredOption globalOptions poolOptions tag with
      | none => none
      | some o => addRequired tags (dhcpOptionAdd dest (dhcpOptionCopy o))

/-- The loop over the requested tags: an option that is not configured is left out. -/
def addRequested : List UInt8 → List DhcpOption → List DhcpOption
  | [], dest => dest
  | tag :: tags, dest =>
    if isOptionBlacklisted blacklisted tag then addRequested tags dest
    else match configuredOption globalOptions poolOptions tag with
      | none => addRequested tags dest
      | some o => addRequested tags (dhcpOptionAdd dest (dhcpOptionCopy o))

/-- `dhcp_option_build_required_options`; `none` stands for the return value -1. -/
def dhcpOptionBuildRequiredOptions (dest : List DhcpOption) (requested required : List UInt8)
    (type : UInt8) : Option (List DhcpOption) :=
  let o53 := dhcpOptionNewValues Tag.dhcpMessageType 1 [type]
  (addRequired blacklisted globalOptions poolOptions (zeroTerminated required)
    (dhcpOptionAdd dest o53)).map
    (addRequested blacklisted globalOptions poolOptions (zeroTerminated requested))

end Build

@[simp] theorem dhcpOptionNewValues_tag (tag lenght : UInt8) (value : List UInt8) :
    (dhcpOptionNewValues tag lenght value).tag = tag := rfl

@[simp] theorem dhcpOptionCopy_tag (o : DhcpOption) : (dhcpOptionCopy o).tag = o.tag := rfl

theorem dhcpOptionRetrieve_tag {options : List DhcpOption} {tag : UInt8} {o : DhcpOption}
    (h : dhcpOptionRetrieve options tag = some o) : o.tag = tag := by
  simpa using List.find?_some h

theorem dhcpOptionRetrieve_eq_none {options : List DhcpOption} {tag : UInt8} :
    dhcpOptionRetrieve options tag = none ↔ ∀ o ∈ options, o.tag ≠ tag := by
  simp [dhcpOptionRetrieve, List.find?_eq_none]

theorem mem_dhcpOptionAdd {dest : List DhcpOption} {option o : DhcpOption}
    (h : o ∈ dhcpOptionAdd dest option) : o ∈ dest ∨ o = option := by
  unfold dhcpOptionAdd at h
  split at h
  · exact .inl h
  · simpa using h

/-- Adding keeps every lookup that succeeded. -/
theorem dhcpOptionRetrieve_add {dest : List DhcpOption} {tag : UInt8} {o : DhcpOption}
    (option : DhcpOption) (h : dhcpOptionRetrieve dest tag = some o) :
    dhcpOptionRetrieve (dhcpOptionAdd dest option) tag = some o := by
  unfold dhcpOptionAdd
  split
  · exact h
  · simp only [dhcpOptionRetrieve] at h ⊢
    simp [h]

theorem retrieve_add_self (dest : List DhcpOption) (o : DhcpOption) :
    (dhcpOptionRetrieve (dhcpOptionAdd dest o) o.tag).isSome := by
  unfold dhcpOptionAdd
  split
  · rename_i h
    simpa using h
  · rw [dhcpOptionRetrieve, List.find?_isSome]
    exact ⟨o, by simp, by simp⟩

theorem retrieve_add_isSome {dest : List DhcpOption} {tag : UInt8} (o : DhcpOption)
    (h : (dhcpOptionRetrieve dest tag).isSome) :
    (dhcpOptionRetrieve (dhcpOptionAdd dest o) tag).isSome := by
  obtain ⟨o', ho'⟩ := Option.isSome_iff_exists.mp h
  rw [dhcpOptionRetrieve_add o ho']
  rfl

theorem head?_dhcpOptionAdd {dest : List DhcpOption} {o : DhcpOption} (option : DhcpOption)
    (h : dest.head? = some o) : (dhcpOptionAdd dest option).head? = some o := by
  unfold dhcpOptionAdd
  split
  · exact h
  · rw [List.head?_append, h]
    rfl

/-- Adding keeps the tags distinct. -/
theorem nodup_dhcpOptionAdd {dest : List DhcpOption} (h : (dest.map DhcpOption.tag).Nodup)
    (option : DhcpOption) : ((dhcpOptionAdd dest option).map DhcpOption.tag).Nodup := by
  unfold dhcpOptionAdd
  split
  · exact h
  · rename_i hno
    have hnone : dhcpOptionRetrieve dest option.tag = none := by simpa using hno
    rw [List.map_append, List.map_singleton]
    refine List.nodup_append.mpr ⟨h, by simp, ?_⟩
    intro t ht t' ht'
    obtain ⟨o, ho, rfl⟩ := List.mem_map.mp ht
    rw [List.mem_singleton.mp ht']
    exact dhcpOptionRetrieve_eq_none.mp hnone o ho

theorem configuredOption_tag {globalOptions poolOptions : List DhcpOption} {tag : UInt8}
    {o : DhcpOption} (h : configuredOption globalOptions poolOptions tag = some o) :
    o.tag = tag := by
  unfold configuredOption at h
  split at h
  · rename_i o' ho
    cases h
    exact dhcpOptionRetrieve_tag ho
  · exact dhcpOptionRetrieve_tag h

/-- The last byte read is the lowest byte of the number. -/
theorem parseNumber_low {lenght : UInt8} (v : Buffer optionMaxLenght) (h : 0 < lenght.toNat) :
    UInt8.ofNat (parseNumber lenght v).toNat = v.get (lenght.toNat - 1) := by
  obtain ⟨n, hn⟩ : ∃ n, lenght.toNat = n + 1 := ⟨lenght.toNat - 1, by omega⟩
  simp only [parseNumber, hn, List.range_succ, List.foldl_append, List.foldl_cons, List.foldl_nil,
    Nat.add_sub_cancel]
  generalize (List.range n).foldl _ _ = x
  apply UInt8.toNat_inj.mp
  have hx : x.toNat <<< 8 % 256 = 0 := by
    rw [Nat.shiftLeft_eq]
    omega
  simp [hx]

section Value

variable {lenght : UInt8} {v : Buffer optionMaxLenght}

theorem parseOptionValue_number {type : DhcpOptionType} (ht : type = .numeric ∨ type = .ip)
    (h : 0 < lenght.toNat) :
    (parseOptionValue type lenght v).get 0 = v.get (lenght.toNat - 1) := by
  rw [← parseNumber_low v h]
  rcases ht with rfl | rfl <;>
    simp [parseOptionValue, Buffer.get_write, optionMaxLenght, le32Bytes, be32Bytes]

theorem parseOptionValue_bool :
    (parseOptionValue .bool lenght v).get 0 = if v.get 0 = 0 then 0 else 1 := by
  simp [parseOptionValue, Buffer.get_write, optionMaxLenght]

theorem parseOptionValue_bytes {type : DhcpOptionType} (ht : type = .string ∨ type = .bin)
    {k : Nat} (hk : k < lenght.toNat) (hm : k < optionMaxLenght) :
    (parseOptionValue type lenght v).get k = v.get k := by
  have hv : k < v.data.length := by rwa [Buffer.length_data]
  have hd : v.data[k] = v.get k := by
    rw [← Buffer.getD_data, List.getD_eq_getElem?_getD, List.getElem?_eq_getElem hv]
    rfl
  have hg : ((Buffer.zero optionMaxLenght).write 0 (v.data.take lenght.toNat)).get k = v.get k := by
    rw [Buffer.get_write _ _ _ _ hm]
    simp [hk, hm, hd]
  rcases ht with rfl | rfl <;> exact hg

end Value

section Build

variable {blacklisted : List UInt8} {globalOptions poolOptions : List DhcpOption}

/-- What holds of the destination and is kept by adding a copy of a configured option that is not
blacklisted holds after the loop over the required tags. -/
theorem addRequired_rule {P : List DhcpOption → Prop}
    (hadd : ∀ dest tag o, P dest → isOptionBlacklisted blacklisted tag = false →
      configuredOption globalOptions poolOptions tag = some o →
      P (dhcpOptionAdd dest (dhcpOptionCopy o)))
    {tags : List UInt8} {dest res : List DhcpOption} (hd : P dest)
    (h : addRequired blacklisted globalOptions poolOptions tags dest = some res) : P res := by
  induction tags generalizing dest with
  | nil =>
    simp only [addRequired, Option.some.injEq] at h
    exact h ▸ hd
  | cons tag tags ih =>
    simp only [addRequired] at h
    split at h
    · exact ih hd h
    · rename_i hb
      split at h
      · cases h
      · rename_i o ho
        exact ih (hadd dest tag o hd (by simpa using hb) ho) h

/-- The same for the loop over the requested tags. -/
theorem addRequested_rule {P : List DhcpOption → Prop}
    (hadd : ∀ dest tag o, P dest → isOptionBlacklisted blacklisted tag = false →
      configuredOption globalOptions poolOptions tag = some o →
      P (dhcpOptionAdd dest (dhcpOptionCopy o)))
    {tags : List UInt8} {dest : List DhcpOption} (hd : P dest) :
    P (addRequested blacklisted globalOptions poolOptions tags dest) := by
  induction tags generalizing dest with
  | nil => exact hd
  | cons tag tags ih =>
    simp only [addRequested]
    split
    · exact ih hd
    · rename_i hb
      split
      · exact ih hd
      · rename_i o ho
        exact ih (hadd dest tag o hd (by simpa using hb) ho)

section Built

variable {requested required : List UInt8} {type : UInt8} {res : List DhcpOption}

/-- The rule for built lists: they start with option 53 and grow by copies of configured options
that are not blacklisted. -/
theorem build_rule {P : List DhcpOption → Prop}
    (h53 : P [dhcpOptionNewValues Tag.dhcpMessageType 1 [type]])
    (hadd : ∀ dest tag o, P dest → isOptionBlacklisted blacklisted tag = false →
      configuredOption globalOptions poolOptions tag = some o →
      P (dhcpOptionAdd dest (dhcpOptionCopy o)))
    (h : dhcpOptionBuildRequiredOptions blacklisted globalOptions poolOptions [] requested
      required type = some res) : P res := by
  simp only [dhcpOptionBuildRequiredOptions, Option.map_eq_some_iff] at h
  obtain ⟨mid, hm, rfl⟩ := h
  exact addRequested_rule hadd (addRequired_rule hadd h53 hm)

/-- The built list carries option 53 with the type the caller asked for. -/
theorem build_messageType
    (h : dhcpOptionBuildRequiredOptions blacklisted globalOptions poolOptions [] requested
      required type = some res) :
    dhcpOptionRetrieve res Tag.dhcpMessageType =
      some (dhcpOptionNewValues Tag.dhcpMessageType 1 [type]) := by
  refine build_rule (P := fun res => dhcpOptionRetrieve res Tag.dhcpMessageType =
    some (dhcpOptionNewValues Tag.dhcpMessageType 1 [type])) ?_ ?_ h
  · simp [dhcpOptionRetrieve]
  · intro dest tag o hd _ _
    exact dhcpOptionRetrieve_add _ hd

/-- Whatever the client asks for, a blacklisted option is never in the built list. -/
theorem build_not_blacklisted {t : UInt8} (ht : isOptionBlacklisted blacklisted t = true)
    (h53 : t ≠ Tag.dhcpMessageType)
    (h : dhcpOptionBuildRequiredOptions blacklisted globalOptions poolOptions [] requested
      required type = some res) :
    ∀ o ∈ res, o.tag ≠ t := by
  refine build_rule (P := fun res => ∀ o ∈ res, o.tag ≠ t) ?_ ?_ h
  · intro o ho
    rw [List.mem_singleton.mp ho, dhcpOptionNewValues_tag]
    exact h53.symm
  · intro dest tag o hd hb hconf x hx
    rcases mem_dhcpOptionAdd hx with hx | rfl
    · exact hd x hx
    · rw [dhcpOptionCopy_tag, configuredOption_tag hconf]
      rintro rfl
      rw [ht] at hb
      cases hb

/-- What holds of option 53 and of the copies of configured options holds of all built ones. -/
theorem build_all {Q : DhcpOption → Prop}
    (h53 : Q (dhcpOptionNewValues Tag.dhcpMessageType 1 [type]))
    (hcopy : ∀ tag o, configuredOption globalOptions poolOptions tag = some o →
      Q (dhcpOptionCopy o))
    (h : dhcpOptionBuildRequiredOptions blacklisted globalOptions poolOptions [] requested
      required type = some res) :
    ∀ o ∈ res, Q o := by
  refine build_rule (P := fun res => ∀ o ∈ res, Q o) ?_ ?_ h
  · intro o ho
    rw [List.mem_singleton.mp ho]
    exact h53
  · intro dest tag o hd _ hconf x hx
    rcases mem_dhcpOptionAdd hx with hx | rfl
    · exact hd x hx
    · exact hcopy tag o hconf

/-- Option 53 stays at the head of the built list. -/
theorem build_first
    (h : dhcpOptionBuildRequiredOptions blacklisted globalOptions poolOptions [] requested
      required type = some res) :
    res.head? = some (dhcpOptionNewValues Tag.dhcpMessageType 1 [type]) := by
  refine build_rule (P := fun res => res.head? =
    some (dhcpOptionNewValues Tag.dhcpMessageType 1 [type])) rfl ?_ h
  intro dest tag o hd _ _
  exact head?_dhcpOptionAdd _ hd

theorem build_distinct
    (h : dhcpOptionBuildRequiredOptions blacklisted globalOptions poolOptions [] requested
      required type = some res) :
    (res.map DhcpOption.tag).Nodup := by
  refine build_rule (P := fun res => (res.map DhcpOption.tag).Nodup) ?_ ?_ h
  · simp
  · intro dest tag o hd _ _
    exact nodup_dhcpOptionAdd hd _

/-- The loop over the required tags ends with each of them in the list. -/
theorem addRequired_contains {tags : List UInt8} {dest : List DhcpOption}
    (h : addRequired blacklisted globalOptions poolOptions tags dest = some res) {t : UInt8}
    (ht : t ∈ tags) (hb : isOptionBlacklisted blacklisted t = false) :
    (dhcpOptionRetrieve res t).isSome := by
  induction tags generalizing dest with
  | nil => cases ht
  | cons tag tags ih =>
    simp only [addRequired] at h
    split at h
    · rename_i hbt
      refine ih h ((List.mem_cons.mp ht).resolve_left ?_)
      rintro rfl
      rw [hbt] at hb
      cases hb
    · split at h
      · cases h
      · rename_i o ho
        rcases List.mem_cons.mp ht with rfl | ht
        · refine addRequired_rule (P := fun res => (dhcpOptionRetrieve res t).isSome) ?_ ?_ h
          · intro dest tag o hd _ _
            exact retrieve_add_isSome _ hd
          · have hself := retrieve_add_self dest (dhcpOptionCopy o)
            rwa [dhcpOptionCopy_tag, configuredOption_tag ho] at hself
        · exact ih h ht

/-- A required option that is not blacklisted is in the built list. -/
theorem build_required {t : UInt8} (ht : t ∈ zeroTerminated required)
    (hb : isOptionBlacklisted blacklisted t = false)
    (h : dhcpOptionBuildRequiredOptions blacklisted globalOptions poolOptions [] requested
      required type = some res) :
    (dhcpOptionRetrieve res t).isSome := by
  simp only [dhcpOptionBuildRequiredOptions, Option.map_eq_some_iff] at h
  obtain ⟨mid, hm, rfl⟩ := h
  refine addRequested_rule (P := fun res => (dhcpOptionRetrieve res t).isSome) ?_
    (addRequired_contains hm ht hb)
  intro dest tag o hd _ _
  exact retrieve_add_isSome _ hd

end Built

/-- The build succeeds as soon as every required option is configured. -/
theorem build_isSome {requested required : List UInt8} {type : UInt8} (dest : List DhcpOption)
    (h : ∀ tag ∈ zeroTerminated required,
      (configuredOption globalOptions poolOptions tag).isSome) :
    (dhcpOptionBuildRequiredOptions blacklisted globalOptions poolOptions dest requested
      required type).isSome := by
  simp only [dhcpOptionBuildRequiredOptions, Option.isSome_map]
  generalize dhcpOptionAdd dest _ = d
  generalize zeroTerminated required = tags at h
  induction tags generalizing d with
  | nil => rfl
  | cons tag tags ih =>
    have htail := fun d => ih d (fun t ht => h t (List.mem_cons_of_mem _ ht))
    simp only [addRequired]
    split
    · exact htail d
    · obtain ⟨o, ho⟩ := Option.isSome_iff_exists.mp (h tag List.mem_cons_self)
      simp only [ho]
      exact htail _

end Build

end DHCPServer
