import DHCPServer.Properties.LeaseTimes

namespace DHCPServer

/-- Nothing can be taken from the pool. -/
def AddressPool.exhausted (q : AddressPool) : Bool :=
  q.availableAddresses == 0 || q.addresses.all q.isAllocated

/-- The least free address of the first pool that has any. -/
def freeAddress (pools : List AddressPool) : Option UInt32 :=
  (pools.find? (!·.exhausted)).bind fun q => q.addresses.find? (!q.isAllocated ·)

/-- The address a DISCOVER is answered with: the one it asks for when that is available, any free one
otherwise. -/
def addressFor (a : AddressAllocator) (m : Message) : Option UInt32 :=
  match (m.option Tag.requestedIpAddress).filter (fun o50 => allocatorIsAddressAvailable a o50.ip) with
  | some o50 => some o50.ip
  | none => freeAddress a.addressPools

/-- The smaller of the time a client asks for and the largest one, which it gets when it asks for
none. -/
def smallerTime (requested : Option DhcpOption) (largest : UInt32) : UInt32 :=
  match requested with
  | some o51 => min o51.number largest
  | none => largest

/-- The option 51 that is configured for the pool of the address reads as the time that is meant for
the client. -/
def PoolOffersDuration (a : AddressAllocator) (m : Message) : Prop :=
  ∃ x p o51 o51Global, addressFor a m = some x ∧ allocatorGetPoolByAddress a x = some p ∧
    configuredOption a.defaultOptions p.dhcpOptionOverride Tag.ipAddressLeaseTime = some o51 ∧
    dhcpOptionRetrieve a.defaultOptions Tag.ipAddressLeaseTime = some o51Global ∧
    o51.wireNumber = smallerTime (m.option Tag.ipAddressLeaseTime) o51Global.number

/-- The packet carries in option 51 the duration that was computed for the client: the smaller of the
time it requests and the configured one. -/
def CarriesDuration (a : AddressAllocator) (m offer : Message) : Prop :=
  ∃ o51Global, dhcpOptionRetrieve a.defaultOptions Tag.ipAddressLeaseTime = some o51Global ∧
    getLeaseDuration a m = smallerTime (m.option Tag.ipAddressLeaseTime) o51Global.number ∧
    offer.packetLeaseTime = some (getLeaseDuration a m)

section Address

variable {a : AddressAllocator} {m : Message} {q : AddressPool}

theorem requestAnyFrom_eq (pools : List AddressPool) :
    (requestAnyFrom pools).1 = freeAddress pools := by
  induction pools with
  | nil => rfl
  | cons q rest ih =>
    have hfind : q.addresses.find? (fun a => q.getAllocation a == 0) =
        q.addresses.find? (!q.isAllocated ·) := by
      apply List.find?_congr
      intro y hy
      rw [AddressPool.get_eq, if_pos (AddressPool.mem_addresses.mp hy)]
      cases q.isAllocated y <;> rfl
    have hskip : q.exhausted = true → freeAddress (q :: rest) = freeAddress rest := by
      intro h
      simp [freeAddress, h]
    rw [requestAnyFrom]
    split
    · rename_i hzero
      rw [hskip (by simp [AddressPool.exhausted, hzero])]
      exact ih
    · rename_i hsome
      unfold allocatorAssignFirstFromPool
      rw [hfind]
      cases hf : q.addresses.find? (!q.isAllocated ·) with
      | some x =>
        have hx : q.isAllocated x = false := by simpa using List.find?_some hf
        have hmem := List.mem_of_find?_eq_some hf
        have hnot : q.exhausted = false := by
          simp only [AddressPool.exhausted, Bool.or_eq_false_iff, beq_eq_false_iff_ne]
          refine ⟨hsome, ?_⟩
          rw [List.all_eq_false]
          exact ⟨x, hmem, by simp [hx]⟩
        simp [freeAddress, hnot, hf]
      | none =>
        have hall : q.exhausted = true := by
          have h := List.find?_eq_none.mp hf
          simp only [AddressPool.exhausted, Bool.or_eq_true, List.all_eq_true]
          exact .inr fun y hy => by simpa using h y hy
        rw [hskip hall]
        exact ih

/-- The address that is taken for a DISCOVER, 0 when there is none. -/
theorem obtainAddress_eq (a : AddressAllocator) (m : Message) :
    (obtainAddress a m).1 = (addressFor a m).getD 0 := by
  have hany : (allocateRandomAddress a).1 = (freeAddress a.addressPools).getD 0 := by
    rw [← requestAnyFrom_eq]
    rfl
  unfold obtainAddress allocateParticularAddress addressFor
  cases h50 : m.option Tag.requestedIpAddress with
  | none => simpa using hany
  | some o50 =>
    rcases AddressAllocator.requestThis_cases a o50.ip with
      ⟨heq, hp⟩ | ⟨heq, ha⟩ | ⟨pre, p, post, a', heq, hg, hfirst⟩
    · have hav : allocatorIsAddressAvailable a o50.ip = false := by
        simp [AddressAllocator.isAvailable_eq, hp]
      simpa [heq, hav, Option.filter] using hany
    · have hav : allocatorIsAddressAvailable a o50.ip = false := by
        simp [AddressAllocator.isAvailable_eq, ha]
      simpa [heq, hav, Option.filter] using hany
    · have hav : allocatorIsAddressAvailable a o50.ip = true := by
        have hpool : a.hasPool o50.ip = true :=
          (AddressAllocator.hasPool_eq_true _ _).mpr ⟨p, by simp [hg.before], hg.belongs⟩
        have hfree : a.isAllocated o50.ip = false := by
          rw [AddressAllocator.isAllocated_eq, hg.before,
            AddressAllocator.allocatedIn_first hfirst hg.belongs]
          exact hg.free
        simp [AddressAllocator.isAvailable_eq, hpool, hfree]
      have hne := AddressPool.belongs_ne_zero hg.belongs
      simp [heq, hav, Option.filter, hne]

theorem getLeaseDuration_eq {o51Global : DhcpOption}
    (h : dhcpOptionRetrieve a.defaultOptions Tag.ipAddressLeaseTime = some o51Global) :
    getLeaseDuration a m = smallerTime (m.option Tag.ipAddressLeaseTime) o51Global.number := by
  unfold getLeaseDuration smallerTime
  rw [h]
  cases m.option Tag.ipAddressLeaseTime with
  | none => rfl
  | some o51 => rfl

/-- A lease duration other than 0 comes from a global option 51. -/
theorem getLeaseDuration_global (h : getLeaseDuration a m ≠ 0) : ∃ o51Global,
    dhcpOptionRetrieve a.defaultOptions Tag.ipAddressLeaseTime = some o51Global := by
  unfold getLeaseDuration at h
  cases hglobal : dhcpOptionRetrieve a.defaultOptions Tag.ipAddressLeaseTime with
  | some o51Global => exact ⟨o51Global, rfl⟩
  | none =>
    rw [hglobal] at h
    exact absurd rfl h

end Address

section Offers

variable {env : Env} {s s' : Server} {m : Message} {k : Sent} {a al : AddressAllocator}
  {x : UInt32} {options : List DhcpOption}

/-- The options of an OFFER are those of the pool of its address, with the client identifier behind
them. -/
theorem offerOptions_build (h : offerOptions al m x = .ok (some options)) :
    ∃ p requested built, allocatorGetPoolByAddress al x = some p ∧
      dhcpOptionBuildRequiredOptions [50, 55, 61, 57, 0] al.defaultOptions p.dhcpOptionOverride []
        requested [51, 54, 0] 2 = some built ∧ ∃ added, options = built ++ added := by
  obtain ⟨built, hbuilt, hadded⟩ := offerOptions_collected h
  obtain ⟨p, requested, hp, hbuild⟩ := getRequested_some hbuilt
  refine ⟨p, requested, built, hp, hbuild, ?_⟩
  rcases hadded with ⟨-, rfl⟩ | ⟨o61, -, rfl⟩
  · exact ⟨[], (List.append_nil _).symm⟩
  · rw [dhcpOptionAdd]
    split
    · exact ⟨[], (List.append_nil _).symm⟩
    · exact ⟨_, rfl⟩

theorem obtainAddress_shape (a : AddressAllocator) (m : Message) :
    (obtainAddress a m).2.shape = a.shape := by
  rcases obtainAddress_cases a m with ⟨heq, -⟩ | ⟨x, a', pre, p, post, heq, -, hg⟩
  · rw [heq]
  · rw [heq]
    exact hg.shape

/-- The OFFER that answers a DISCOVER is for the address that is taken, and built from its options. -/
theorem discover_offers {rv : Int} (hh : messageDhcpdiscoverHandle env s m = .ok (rv, s'))
    (hk : answer s s' = some k) : getLeaseDuration s.allocator m ≠ 0 ∧
    ∃ x reply, addressFor s.allocator m = some x ∧
      offerOptions (obtainAddress s.allocator m).2 m x = .ok (some reply.dhcpOptions) ∧
      k.message = (dhcpPacketBuild reply).2 ∧ (dhcpPacketBuild reply).1 = true := by
  unfold messageDhcpdiscoverHandle at hh
  dsimp only at hh
  split at hh
  · cases hh
    rw [answer, Server.setAllocator_sent, List.drop_length] at hk
    cases hk
  rename_i hne
  split at hh
  · cases hh
    rw [answer, Server.setAllocator_sent, List.drop_length] at hk
    cases hk
  rename_i hduration
  have hdefault : (obtainAddress s.allocator m).2.defaultOptions = s.allocator.defaultOptions :=
    congrArg Prod.fst (obtainAddress_shape s.allocator m)
  have hsame : getLeaseDuration (obtainAddress s.allocator m).2 m =
      getLeaseDuration s.allocator m := by
    rw [getLeaseDuration, getLeaseDuration, hdefault]
  obtain ⟨⟨ok, s₁⟩, hbuild, hh⟩ := seq_ok.mp hh
  cases hh
  have hx : addressFor s.allocator m = some (obtainAddress s.allocator m).1 := by
    rw [obtainAddress_eq] at hne ⊢
    cases hfor : addressFor s.allocator m with
    | none =>
      rw [hfor] at hne
      exact absurd rfl hne
    | some x => rfl
  have hdelivers := offerBuild_delivers (P := fun reply =>
    offerOptions (obtainAddress s.allocator m).2 m (obtainAddress s.allocator m).1 =
      .ok (some reply.dhcpOptions)) hbuild fun options hopts => hopts
  obtain ⟨reply, hopts, hmessage, hbuilt⟩ := hdelivers.answer ((answer_congr rfl).trans hk)
  exact ⟨hsame ▸ hduration, _, reply, hx, hopts, hmessage, hbuilt⟩

/-- Allocators of one shape have the same options for an address. -/
theorem configured_of_shape (h : al.shape = a.shape) {p : AddressPool}
    (hp : allocatorGetPoolByAddress al x = some p) :
    ∃ q, allocatorGetPoolByAddress a x = some q ∧
      ∀ tag, configuredOption a.defaultOptions q.dhcpOptionOverride tag =
        configuredOption al.defaultOptions p.dhcpOptionOverride tag := by
  have hpools := AddressAllocator.getPool_of_shape h x
  rw [hp, Option.map_some] at hpools
  obtain ⟨q, hq, hshape⟩ := Option.map_eq_some_iff.mp hpools.symm
  have hdefault : al.defaultOptions = a.defaultOptions := congrArg Prod.fst h
  have hoverride : q.dhcpOptionOverride = p.dhcpOptionOverride :=
    congrArg (fun shape => shape.2.2.2.2) hshape
  exact ⟨q, hq, fun tag => by rw [hdefault, hoverride]⟩

end Offers

/-- An OFFER carries the lease duration that was computed for it exactly when the configured lease
time of the address's pool is this duration anyway. -/
theorem offered_lease_time_iff {env : Env} {s s' : Server} {m : Message} {rv : Int} {k : Sent}
    (hh : messageDhcpdiscoverHandle env s m = .ok (rv, s')) (hk : answer s s' = some k) :
    CarriesDuration s.allocator m k.message ↔ PoolOffersDuration s.allocator m := by
  obtain ⟨hduration, x, reply, hx, hopts, hmessage, hbuilt⟩ := discover_offers hh hk
  obtain ⟨p, requested, built, hp, hbuild, hadded⟩ := offerOptions_build hopts
  obtain ⟨o51, ho51, htime⟩ := packetLeaseTime_build hbuild hadded hbuilt
  obtain ⟨q, hq, hsame⟩ := configured_of_shape (obtainAddress_shape s.allocator m) hp
  rw [← hsame] at ho51
  obtain ⟨o51Global, hglobal⟩ := getLeaseDuration_global hduration
  rw [hmessage]
  constructor
  · intro h
    obtain ⟨global', hglobal', htime', hpacket⟩ := h
    rw [htime, Option.some.injEq, htime'] at hpacket
    exact ⟨x, q, o51, global', hx, hq, ho51, hglobal', hpacket⟩
  · intro h
    obtain ⟨x', q', o51', global', hx', hq', ho51', hglobal', heq⟩ := h
    obtain rfl : x = x' := Option.some.inj (hx.symm.trans hx')
    obtain rfl : q = q' := Option.some.inj (hq.symm.trans hq')
    obtain rfl : o51 = o51' := Option.some.inj (ho51.symm.trans ho51')
    have hsmaller := getLeaseDuration_eq (m := m) hglobal'
    exact ⟨global', hglobal', hsmaller, by rw [htime, heq, hsmaller]⟩

theorem plain_discover_offered_time : ∃ m s₂ s', ∃ k : Sent,
    handled smallServer (discoverBy 1001 7 1) = some (m, s₂) ∧
    messageDhcpdiscoverHandle (discoverBy 1001 7 1).env s₂ m = .ok (0, s') ∧
    answer s₂ s' = some k ∧ CarriesDuration s₂.allocator m k.message := by
  have hany : (handled smallServer (discoverBy 1001 7 1)).any (fun r =>
      (addressFor r.2.allocator r.1).any (fun x =>
        (allocatorGetPoolByAddress r.2.allocator x).any fun p =>
          (configuredOption r.2.allocator.defaultOptions p.dhcpOptionOverride
            Tag.ipAddressLeaseTime).any fun o51 =>
              (dhcpOptionRetrieve r.2.allocator.defaultOptions Tag.ipAddressLeaseTime).any
                fun o51Global => o51.wireNumber ==
                  smallerTime (r.1.option Tag.ipAddressLeaseTime) o51Global.number) &&
      (messageDhcpdiscoverHandle (discoverBy 1001 7 1).env r.2 r.1).toOption.any fun x =>
        x.1 == 0 && (answer r.2 x.2).isSome) = true := by decide +kernel
  obtain ⟨⟨m, s₂⟩, hm, hq⟩ := (Option.any_eq_true _ _).mp hany
  rw [Bool.and_eq_true] at hq
  obtain ⟨hpool, hrun⟩ := hq
  obtain ⟨x, hx, hpool⟩ := (Option.any_eq_true _ _).mp hpool
  obtain ⟨p, hp, hpool⟩ := (Option.any_eq_true _ _).mp hpool
  obtain ⟨o51, ho51, hpool⟩ := (Option.any_eq_true _ _).mp hpool
  obtain ⟨o51Global, hglobal, hpool⟩ := (Option.any_eq_true _ _).mp hpool
  obtain ⟨⟨rv, s'⟩, hhandle, hq⟩ := exists_ok_of_any hrun
  simp only [Bool.and_eq_true, beq_iff_eq] at hq
  obtain ⟨rfl, hsome⟩ := hq
  obtain ⟨k, hk⟩ := Option.isSome_iff_exists.mp hsome
  refine ⟨m, s₂, s', k, hm, hhandle, hk, (offered_lease_time_iff hhandle hk).mpr ?_⟩
  exact ⟨x, p, o51, o51Global, hx, hp, ho51, hglobal, by simpa using hpool⟩

/-- A client that asks for a lease of ten minutes, where leases of an hour are configured. -/
def discoverForTenMinutes : Event :=
  receives 1001 (clientPacket 7 0 [2, 0, 0, 0, 0, 1] [53, 1, 1, 51, 4, 0, 0, 2, 0x58, 55, 1, 1, 255])

/-- The OFFER is for an hour all the same. -/
theorem offer_ignores_requested_time :
    ¬∀ env s m rv s' k, messageDhcpdiscoverHandle env s m = .ok (rv, s') →
      answer s s' = some k → CarriesDuration s.allocator m k.message := by
  intro h
  have hany : (handled smallServer discoverForTenMinutes).any (fun r =>
      getLeaseDuration r.2.allocator r.1 == 600 &&
      (messageDhcpdiscoverHandle discoverForTenMinutes.env r.2 r.1).toOption.any fun x =>
        (answer r.2 x.2).any fun k => k.message.packetLeaseTime == some 3600) = true := by
    decide +kernel
  obtain ⟨⟨m, s₂⟩, -, hq⟩ := (Option.any_eq_true _ _).mp hany
  rw [Bool.and_eq_true, beq_iff_eq] at hq
  obtain ⟨hduration, hrun⟩ := hq
  obtain ⟨⟨rv, s'⟩, hs', hanswer⟩ := exists_ok_of_any hrun
  obtain ⟨k, hk, htime⟩ := (Option.any_eq_true _ _).mp hanswer
  rw [beq_iff_eq] at htime
  obtain ⟨-, -, -, hcarries⟩ := h _ _ _ _ _ _ hs' hk
  rw [htime, hduration] at hcarries
  cases hcarries

end DHCPServer
