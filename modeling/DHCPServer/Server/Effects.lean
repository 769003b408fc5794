import DHCPServer.Server.Serve

namespace DHCPServer

section Replies

variable {env : Env} {s s' : Server} {m r : Message} {a : UInt32}

/-- `s'` differs from `s` by at most one reply that satisfies `P`: it is sent, and then cached
if the cache has room. -/
structure Replied (now : UInt32) (s s' : Server) (P : Message → Prop) : Prop where
  allocator : s'.allocator = s.allocator
  leases : s'.leases = s.leases
  boundIp : s'.boundIp = s.boundIp
  reply : (s'.sent = s.sent ∧ s'.transCache = s.transCache) ∨
    ∃ sent : Sent, P sent.message ∧ s'.sent = s.sent ++ [sent] ∧
      (s'.transCache = s.transCache ∨
        s.transCache.Adds s'.transCache (sent.message.setTime now))

theorem replied_refl (now : UInt32) (s : Server) (P : Message → Prop) : Replied now s s P :=
  ⟨rfl, rfl, rfl, .inl ⟨rfl, rfl⟩⟩

theorem deliver_replied (env : Env) (hs : s.transCache.Sound) (reply : Message)
    (destination : UInt32) {P : Message → Prop} (hP : ∀ p, P (reply.setPacket p)) :
    Replied env.now s (deliver env s reply destination).2 P := by
  rcases deliver_cases env s reply destination with heq | ⟨p, stored, cache, hadd, heq⟩
  · rw [heq]
    exact replied_refl _ _ _
  · rw [heq]
    refine ⟨rfl, rfl, rfl, .inr ⟨⟨destination, reply.setPacket p⟩, hP p, rfl, ?_⟩⟩
    rcases TransactionCache.add_cases env.now hs (reply.setPacket p) with ⟨hno, -⟩ | ⟨c, hc, hadds⟩
    · rw [hno] at hadd
      cases hadd
      exact .inl rfl
    · rw [hc] at hadd
      cases hadd
      exact .inr hadds

/-- A reply to `m` with its xid and hardware address, for the address `a`, that is cached under
one type and carries another on the wire. -/
structure ReplyOf (m : Message) (a cached : UInt32) (wire : UInt32) (r : Message) : Prop where
  xid : r.xid = m.xid
  chaddr : r.chaddr = m.chaddr
  yiaddr : r.yiaddr = a
  type : r.type = cached
  wireType : r.wireType = some wire

theorem ReplyOf.mac {cached wire : UInt32} (h : ReplyOf m a cached wire r) : r.mac = m.mac := by
  rw [Message.mac, h.chaddr, Message.mac]

theorem number_newValues (tag type : UInt8) :
    (dhcpOptionNewValues tag 1 [type]).number = type.toUInt32 := by
  have h0 : (dhcpOptionNewValues tag 1 [type]).value.get 0 = type := by
    simp [dhcpOptionNewValues, Buffer.get_write, optionMaxLenght]
  have hk : ∀ k, k ≠ 0 → k < 4 → (dhcpOptionNewValues tag 1 [type]).value.get k = 0 := by
    intro k hk hlt
    have hm : k < optionMaxLenght := hlt.trans (by decide)
    rw [dhcpOptionNewValues, Buffer.get_write _ _ _ _ hm, if_neg, Buffer.get_zero]
    simp
    omega
  apply UInt32.toNat_inj.mp
  rw [DhcpOption.number, le32, be32_toNat, h0, hk 1 (by decide) (by decide),
    hk 2 (by decide) (by decide), hk 3 (by decide) (by decide)]
  simp

/-- A reply whose options are built for a type carries this type on the wire. -/
theorem wireType_of_build {required blacklisted requested : List UInt8} {type : UInt8}
    {globalOptions poolOptions options : List DhcpOption} {reply : Message}
    (h : dhcpOptionBuildRequiredOptions blacklisted globalOptions poolOptions [] requested
      required type = some options) (ho : reply.option Tag.dhcpMessageType =
        dhcpOptionRetrieve options Tag.dhcpMessageType) :
    reply.wireType = some type.toUInt32 := by
  rw [Message.wireType, ho, build_messageType h]
  exact congrArg some (number_newValues _ _)

theorem getRequested_ok {required blacklisted : List UInt8} {type : UInt8}
    {al : AddressAllocator} {options : Option (List DhcpOption)}
    (h : getRequestedDhcpOptions required blacklisted type al m a = .ok options) :
    ∃ o55, m.option Tag.parameterRequestList = some o55 ∧
      ((allocatorGetPoolByAddress al a = none ∧ options = none) ∨
        ∃ pool, allocatorGetPoolByAddress al a = some pool ∧
          options = dhcpOptionBuildRequiredOptions blacklisted al.defaultOptions
            pool.dhcpOptionOverride [] (o55.value.data.take o55.lenght.toNat) required type) := by
  obtain ⟨o55, h55, h⟩ := seq_ok.mp h
  refine ⟨o55, deref_eq_ok.mp h55, ?_⟩
  cases hp : allocatorGetPoolByAddress al a with
  | none =>
    rw [hp] at h
    exact .inl ⟨rfl, (Except.ok.inj h).symm⟩
  | some pool =>
    rw [hp] at h
    exact .inr ⟨pool, rfl, (Except.ok.inj h).symm⟩

/-- Options that could be collected are those of the pool of the address. -/
theorem getRequested_some {required blacklisted : List UInt8} {type : UInt8}
    {al : AddressAllocator} {options : List DhcpOption}
    (h : getRequestedDhcpOptions required blacklisted type al m a = .ok (some options)) :
    ∃ pool requested, allocatorGetPoolByAddress al a = some pool ∧
      dhcpOptionBuildRequiredOptions blacklisted al.defaultOptions pool.dhcpOptionOverride []
        requested required type = some options := by
  obtain ⟨o55, -, ⟨-, hnone⟩ | ⟨pool, hpool, hbuild⟩⟩ := getRequested_ok h
  · cases hnone
  · exact ⟨pool, _, hpool, hbuild.symm⟩

/-- The options of an OFFER are the collected ones, and behind them the client identifier of the
DISCOVER. -/
theorem offerOptions_collected {al : AddressAllocator} {options : List DhcpOption}
    (h : offerOptions al m a = .ok (some options)) :
    ∃ built, getRequestedDhcpOptions [51, 54, 0] [50, 55, 61, 57, 0] 2 al m a = .ok (some built) ∧
      ((m.option Tag.clientIdentifier = none ∧ options = built) ∨
        ∃ o61, m.option Tag.clientIdentifier = some o61 ∧ options = dhcpOptionAdd built
          (dhcpOptionNewValues Tag.clientIdentifier o61.lenght o61.value.data)) := by
  obtain ⟨built, hbuilt, h⟩ := seq_ok.mp h
  cases built with
  | none => cases h
  | some built =>
    refine ⟨built, hbuilt, ?_⟩
    cases h61 : m.option Tag.clientIdentifier with
    | none =>
      simp only [h61] at h
      cases h
      exact .inl ⟨rfl, rfl⟩
    | some o61 =>
      simp only [h61] at h
      cases h
      exact .inr ⟨o61, rfl, rfl⟩

theorem option_reply (reply : Message) (options : List DhcpOption) (p : Buffer packetSize)
    (tag : UInt8) :
    ((reply.setOptions options).setPacket p).option tag = dhcpOptionRetrieve options tag := rfl

theorem replyOf_build {required blacklisted requested : List UInt8} {type : UInt8}
    {globalOptions poolOptions options : List DhcpOption}
    (h : dhcpOptionBuildRequiredOptions blacklisted globalOptions poolOptions [] requested
      required type = some options)
    (ciaddr yiaddr siaddr giaddr cached : UInt32) (p : Buffer packetSize) :
    ReplyOf m yiaddr cached type.toUInt32
      (((replyTo m ciaddr yiaddr siaddr giaddr cached).setOptions options).setPacket p) :=
  ⟨by simp, by simp, by simp, by simp, wireType_of_build h (option_reply _ _ _ _)⟩

theorem nakBuild_replied (env : Env) (hs : s.transCache.Sound) (m : Message) :
    Replied env.now s (messageDhcpnakBuild env s m).2 (ReplyOf m 0 MsgType.nak 6) := by
  unfold messageDhcpnakBuild
  dsimp only
  split
  · exact replied_refl _ _ _
  · rename_i options ho
    exact deliver_replied env hs _ _ fun p => replyOf_build ho 0 0 0 m.giaddr MsgType.nak p

theorem sendAck_replied (hs : s.transCache.Sound) {ok : Bool} {required blacklisted : List UInt8}
    {siaddr giaddr ciaddr yiaddr cached : UInt32}
    (h : sendAck env s (replyTo m ciaddr yiaddr siaddr giaddr cached)
      (getRequestedDhcpOptions required blacklisted 5 s.allocator m a) = .ok (ok, s')) :
    Replied env.now s s' (ReplyOf m yiaddr cached 5) := by
  obtain ⟨options, hopts, h⟩ := seq_ok.mp h
  cases options with
  | none =>
    cases h
    exact replied_refl _ _ _
  | some options =>
    obtain ⟨pool, requested, -, hbuild⟩ := getRequested_some hopts
    have hd := deliver_replied env hs
      ((replyTo m ciaddr yiaddr siaddr giaddr cached).setOptions options)
      (ackDestination s ciaddr) (replyOf_build hbuild ciaddr yiaddr siaddr giaddr cached)
    have hs' : _ = s' := congrArg Prod.snd (Except.ok.inj h)
    rw [← hs']
    exact hd

theorem ackBuild_replied (hs : s.transCache.Sound) {ok : Bool} {d : UInt32}
    (h : messageDhcpackBuild env s m d a = .ok (ok, s')) :
    Replied env.now s s' (ReplyOf m a 0 5) :=
  sendAck_replied hs h

theorem ackRenew_replied (hs : s.transCache.Sound) {ok : Bool}
    (h : messageDhcpackBuildLeaseRenew env s m = .ok (ok, s')) :
    Replied env.now s s' (ReplyOf m m.ciaddr 0 5) :=
  sendAck_replied hs h

theorem ackInform_replied (hs : s.transCache.Sound) {ok : Bool}
    (h : messageDhcpackBuildInformResponse env s m = .ok (ok, s')) :
    Replied env.now s s' (ReplyOf m 0 MsgType.ack 5) := by
  unfold messageDhcpackBuildInformResponse at h
  split at h
  · cases h
    exact replied_refl _ _ _
  · exact sendAck_replied hs h

/-- What is said about an OFFER of the address `a`; option 50 is never among its options. -/
structure OfferOf (m : Message) (a : UInt32) (r : Message) : Prop
    extends ReplyOf m a MsgType.offer 2 r where
  noAddressOption : r.option Tag.requestedIpAddress = none

theorem offerOptions_ok {al : AddressAllocator} {options : List DhcpOption}
    (h : offerOptions al m a = .ok (some options)) :
    (∃ pool, allocatorGetPoolByAddress al a = some pool) ∧
      dhcpOptionRetrieve options Tag.dhcpMessageType =
        some (dhcpOptionNewValues Tag.dhcpMessageType 1 [2]) ∧
      dhcpOptionRetrieve options Tag.requestedIpAddress = none := by
  obtain ⟨built, hbuilt, hadded⟩ := offerOptions_collected h
  obtain ⟨pool, requested, hpool, hbuild⟩ := getRequested_some hbuilt
  have h53 := build_messageType hbuild
  have h50 : ∀ o ∈ built, o.tag ≠ Tag.requestedIpAddress :=
    build_not_blacklisted (by decide) (by decide) hbuild
  refine ⟨⟨pool, hpool⟩, ?_⟩
  rcases hadded with ⟨-, rfl⟩ | ⟨o61, -, rfl⟩
  · exact ⟨h53, dhcpOptionRetrieve_eq_none.mpr h50⟩
  · refine ⟨dhcpOptionRetrieve_add _ h53, dhcpOptionRetrieve_eq_none.mpr ?_⟩
    intro o ho
    rcases mem_dhcpOptionAdd ho with ho | rfl
    · exact h50 o ho
    · rw [dhcpOptionNewValues_tag]
      decide

theorem offerBuild_replied (hs : s.transCache.Sound) {ok : Bool} {d : UInt32}
    (h : messageDhcpofferBuild env s m a d = .ok (ok, s')) :
    Replied env.now s s' (OfferOf m a) := by
  obtain ⟨options, hopts, h⟩ := seq_ok.mp h
  cases options with
  | none =>
    cases h
    exact replied_refl _ _ _
  | some options =>
    obtain ⟨-, h53, h50⟩ := offerOptions_ok hopts
    have hd := deliver_replied env hs
      ((replyTo m 0 a s.boundIp m.giaddr MsgType.offer).setOptions options) s.broadcastAddr
      (P := OfferOf m a) ?_
    · have hs' : _ = s' := congrArg Prod.snd (Except.ok.inj h)
      rw [← hs']
      exact hd
    · intro p
      refine ⟨⟨by simp, by simp, by simp, by simp, ?_⟩, h50⟩
      rw [Message.wireType, option_reply, h53]
      exact congrArg some (number_newValues _ _)

end Replies

section Handlers

variable {env : Env} {s s' : Server} {m : Message}

open AddressAllocator in
/-- A DISCOVER gets no address only when the one it asks for is not free and no pool has any. -/
theorem obtainAddress_cases (a : AddressAllocator) (m : Message) :
    (obtainAddress a m = (0, a) ∧ (∀ q ∈ a.addressPools, passedOver q) ∧
      ∀ o50, m.option Tag.requestedIpAddress = some o50 →
        allocatorIsAddressAvailable a o50.ip = false) ∨
    ∃ x a' pre p post, obtainAddress a m = (x, a') ∧ x ≠ 0 ∧ Grants a a' pre p post x := by
  -- the part that is reached without a particular address
  have hany : (allocateRandomAddress a = (0, a) ∧ ∀ q ∈ a.addressPools, passedOver q) ∨
      ∃ x a' pre p post, allocateRandomAddress a = (x, a') ∧ x ≠ 0 ∧
        Grants a a' pre p post x := by
    rcases requestAny_cases a with ⟨pre, p, post, x, a', heq, hg, -⟩ | ⟨heq, hall⟩
    · refine .inr ⟨x, a', pre, p, post, ?_, AddressPool.belongs_ne_zero hg.belongs, hg⟩
      simp [allocateRandomAddress, heq]
    · exact .inl ⟨by simp [allocateRandomAddress, heq], hall⟩
  unfold obtainAddress allocateParticularAddress
  cases h50 : m.option Tag.requestedIpAddress with
  | none =>
    simp only [Option.isSome_none, Bool.false_eq_true, if_false, if_true, reduceCtorEq,
      false_imp_iff, implies_true, and_true]
    exact hany
  | some o50 =>
    simp only [Option.isSome_some, if_true, Option.some.injEq, forall_eq']
    rcases requestThis_cases a o50.ip with ⟨heq, hp⟩ | ⟨heq, ha⟩ | ⟨pre, p, post, a', heq, hg, -⟩
    · have hav : allocatorIsAddressAvailable a o50.ip = false := by simp [isAvailable_eq, hp]
      simp only [heq, Option.getD_none, if_true]
      exact hany.imp (fun h => ⟨h.1, h.2, hav⟩) id
    · have hav : allocatorIsAddressAvailable a o50.ip = false := by simp [isAvailable_eq, ha]
      simp only [heq, Option.getD_none, if_true]
      exact hany.imp (fun h => ⟨h.1, h.2, hav⟩) id
    · have hne := AddressPool.belongs_ne_zero hg.belongs
      simp only [heq, Option.getD_some, hne, if_false]
      exact .inr ⟨_, a', pre, p, post, rfl, hne, hg⟩

/-- The lease that a REQUEST in answer to an OFFER commits. -/
structure Commits (env : Env) (s : Server) (m : Message) (address : UInt32) (lease : Lease) :
    Prop where
  serverIdentifier : ∃ o54, m.option Tag.serverIdentifier = some o54 ∧ o54.ip = s.boundIp
  valid : validateClientIdAndRequestedParams (env.seen s.transCache) m = true
  notAvailable : allocatorIsAddressAvailable s.allocator address = false
  pool : ∃ p t, allocatorGetPoolByAddress s.allocator address = some p ∧
    lease = newLease env.now m p t address
  written : env.writes = true

/-- The committed record is the client's, for the address, in the file of its pool. -/
theorem Commits.record {address : UInt32} {lease : Lease} (h : Commits env s m address lease) :
    lease.record.address = address ∧ lease.record.clientMacAddress = m.mac ∧
      ∃ p, allocatorGetPoolByAddress s.allocator address = some p ∧ lease.poolName = p.name := by
  obtain ⟨p, t, hp, rfl⟩ := h.pool
  exact ⟨rfl, rfl, p, hp, rfl⟩

/-- The record goes to the file of the address's pool, or nothing is written. -/
theorem commit_cases (env : Env) (s : Server) (m : Message) (t x : UInt32) :
    dhcpRequstCommitLease env s m t x = (.commitError, s) ∨
    ∃ p, allocatorGetPoolByAddress s.allocator x = some p ∧ env.writes = true ∧
      dhcpRequstCommitLease env s m t x =
        (.ok, s.setLeases (leaseAdd true s.leases (newLease env.now m p t x)).2) := by
  unfold dhcpRequstCommitLease
  cases hp : allocatorGetPoolByAddress s.allocator x with
  | none => exact .inl rfl
  | some p =>
    dsimp only
    cases hw : env.writes with
    | false => exact .inl rfl
    | true => exact .inr ⟨p, rfl, rfl, rfl⟩

/-- A lease is committed, or the server stays as it is. -/
theorem response_cases {o54 : DhcpOption} {status : RequestStatus}
    (h54 : m.option Tag.serverIdentifier = some o54)
    (h : dhcpRequestResponseToOffer env s m o54 = .ok (status, s')) :
    (status ≠ .ok ∧ s' = s) ∨
    (status = .ok ∧ ∃ lease,
      Commits env s m (retrieveClientAddress m s.transCache) lease ∧
      s' = s.setLeases (leaseAdd true s.leases lease).2) := by
  unfold dhcpRequestResponseToOffer at h
  split at h
  · cases h
    exact .inl ⟨by decide, rfl⟩
  rename_i hip
  split at h
  · cases h
    exact .inl ⟨by decide, rfl⟩
  split at h
  · cases h
    exact .inl ⟨by decide, rfl⟩
  rename_i hvalid
  dsimp only at h
  split at h
  · cases h
    exact .inl ⟨by decide, rfl⟩
  split at h
  · cases h
    exact .inl ⟨by decide, rfl⟩
  rename_i hav
  obtain ⟨t, -, h⟩ := seq_ok.mp h
  split at h
  · cases h
    exact .inl ⟨by decide, rfl⟩
  rcases commit_cases env s m t (retrieveClientAddress m s.transCache) with
    heq | ⟨p, hp, hw, heq⟩
  · rw [heq] at h
    cases h
    exact .inl ⟨by decide, rfl⟩
  · rw [heq] at h
    cases h
    exact .inr ⟨rfl, _, ⟨⟨o54, h54, not_not.mp hip⟩, by simpa using hvalid, by simpa using hav,
      ⟨p, t, hp, rfl⟩, hw⟩, rfl⟩

/-- The record of an address that `lease_retrieve_address` finds: the first one in the file of
the first pool that contains the address. -/
structure FirstRecord (s : Server) (address : UInt32) (p : AddressPool) (r : LeaseRecord) : Prop
    where
  pool : allocatorGetPoolByAddress s.allocator address = some p
  first : (s.leases p.name).find? (·.address == address) = some r

theorem FirstRecord.address {address : UInt32} {p : AddressPool} {r : LeaseRecord}
    (h : FirstRecord s address p r) : r.address = address := by
  simpa using List.find?_some h.first

theorem FirstRecord.mem {address : UInt32} {p : AddressPool} {r : LeaseRecord}
    (h : FirstRecord s address p r) : r ∈ s.leases p.name :=
  List.mem_of_find?_eq_some h.first

theorem FirstRecord.belongs {address : UInt32} {p : AddressPool} {r : LeaseRecord}
    (h : FirstRecord s address p r) : addressBelongsToPool p address = true := by
  simpa using List.find?_some h.pool

theorem firstRecord_iff {address : UInt32} {lease : Lease} :
    leaseRetrieveAddress s.leases address s.allocator.addressPools = some lease ↔
      ∃ p, FirstRecord s address p lease.record ∧ lease.poolName = p.name := by
  rw [leaseRetrieveAddress_eq_some]
  constructor
  · intro h
    obtain ⟨p, hp, hname, hr⟩ := h
    exact ⟨p, ⟨hp, hr⟩, hname⟩
  · intro h
    obtain ⟨p, hf, hname⟩ := h
    exact ⟨p, hf.pool, hname, hf.first⟩

/-- The record `r` with a new start, running for the time `t`. -/
def LeaseRecord.extend (r : LeaseRecord) (now t : UInt32) : LeaseRecord :=
  { r with leaseStart := now, leaseExpire := now + t }

/-- The store in which the first record of an address is replaced by its extension, which is lost
when the file cannot be written; when the file cannot be cut the old record stays beside it. -/
def renewedLeases (env : Env) (s : Server) (p : AddressPool) (r : LeaseRecord) (t : UInt32) :
    LeaseStore :=
  (leaseAdd env.extends (leaseRemove env.rewrite s.leases r.address p.name).2
    ⟨r.extend env.now t, p.name⟩).2

/-- The lease time that is configured for the addresses of a pool: the pool's own option 51, or the
global one, or 0. -/
def configuredLeaseTime (a : AddressAllocator) (p : AddressPool) : UInt32 :=
  match configuredOption a.defaultOptions p.dhcpOptionOverride Tag.ipAddressLeaseTime with
  | none => 0
  | some o51 => o51.number

/-- A renewal is due: the address asked for has a record whose hardware address is the client's. -/
def Renewable (s : Server) (m : Message) : Prop :=
  ∃ p r, FirstRecord s m.ciaddr p r ∧ r.clientMacAddress = m.mac

theorem getPool_belongs {al : AddressAllocator} {p : AddressPool} {x : UInt32}
    (h : allocatorGetPoolByAddress al x = some p) :
    addressBelongsToPool p x = true := by
  simpa using List.find?_some h

theorem getPool_ne_zero {al : AddressAllocator} {p : AddressPool} {x : UInt32}
    (h : allocatorGetPoolByAddress al x = some p) : x ≠ 0 :=
  AddressPool.belongs_ne_zero (getPool_belongs h)

theorem retrieveLeaseTime_eq {al : AddressAllocator} {p : AddressPool} {x : UInt32}
    (h : allocatorGetPoolByAddress al x = some p) :
    retrieveLeaseTime x al = .ok (configuredLeaseTime al p) := by
  unfold retrieveLeaseTime configuredLeaseTime
  rw [if_neg (getPool_ne_zero h), h]
  show (match configuredOption al.defaultOptions p.dhcpOptionOverride Tag.ipAddressLeaseTime with
    | none => (.ok 0 : Except Fault UInt32)
    | some o51 => .ok o51.number) = _
  split <;> rfl

/-- A renewal that is due, in closed form. -/
theorem renew_eq {p : AddressPool} {r : LeaseRecord} (hr : FirstRecord s m.ciaddr p r)
    (hmac : r.clientMacAddress = m.mac) :
    dhcpRequestRenewLease env s m = .ok (env.extends,
      s.setLeases (renewedLeases env s p r (configuredLeaseTime s.allocator p))) := by
  have hfound : leaseRetrieveAddress s.leases m.ciaddr s.allocator.addressPools =
      some ⟨r, p.name⟩ := firstRecord_iff.mpr ⟨p, hr, rfl⟩
  have hany : (s.leases p.name).any (·.address == r.address) = true :=
    List.any_eq_true.mpr ⟨r, hr.mem, by simp⟩
  unfold dhcpRequestRenewLease
  rw [if_neg (getPool_ne_zero hr.pool), hfound]
  dsimp only
  rw [if_neg (not_not.mpr hmac), Server.setLeases_allocator, retrieveLeaseTime_eq hr.pool,
    leaseRemove_status, hany]
  unfold renewedLeases
  cases hrew : env.rewrite with
  | notOpened => simp [Env.extends, hrew, leaseRemove, leaseAdd, pure, Except.pure]
  | done | notTruncated | notWritten =>
    cases hw : env.extends <;> rfl

/-- A renewal that is not due leaves the server as it is. -/
theorem renew_none (h : ¬Renewable s m) : dhcpRequestRenewLease env s m = .ok (false, s) := by
  unfold dhcpRequestRenewLease
  split
  · rfl
  cases hl : leaseRetrieveAddress s.leases m.ciaddr s.allocator.addressPools with
  | none => rfl
  | some lease =>
    obtain ⟨p, hf, -⟩ := firstRecord_iff.mp hl
    have hmac : lease.record.clientMacAddress ≠ m.mac := fun hmac => h ⟨p, _, hf, hmac⟩
    simp only [hmac, ne_eq, not_false_eq_true, if_true]
    rfl

/-- A renewal extends the client's own first record, or changes nothing. -/
theorem renew_cases {ok : Bool} (h : dhcpRequestRenewLease env s m = .ok (ok, s')) :
    (s' = s ∧ ok = false ∧ ¬∃ p r, FirstRecord s m.ciaddr p r ∧ r.clientMacAddress = m.mac) ∨
    ∃ p r t, FirstRecord s m.ciaddr p r ∧ r.clientMacAddress = m.mac ∧ ok = env.extends ∧
      s' = s.setLeases (renewedLeases env s p r t) := by
  by_cases hren : Renewable s m
  · obtain ⟨p, r, hr, hmac⟩ := hren
    rw [renew_eq hr hmac] at h
    cases h
    exact .inr ⟨p, r, _, hr, hmac, rfl, rfl⟩
  · rw [renew_none hren] at h
    cases h
    exact .inl ⟨rfl, rfl, hren⟩

/-- A RELEASE does nothing when the address has no record or its file cannot be opened. -/
theorem release_handle_cases (env : Env) (s : Server) (m : Message) :
    ((messageDhcpreleaseHandle env s m).2 = s ∧
      (env.rewrite = .notOpened ∨ ¬∃ p r, FirstRecord s m.ciaddr p r)) ∨
    ∃ p r, FirstRecord s m.ciaddr p r ∧ env.rewrite ≠ .notOpened ∧
      (messageDhcpreleaseHandle env s m).2 =
        (s.setLeases (leaseRemove env.rewrite s.leases m.ciaddr p.name).2).setAllocator
          (allocatorReleaseAddress s.allocator m.ciaddr).2 := by
  unfold messageDhcpreleaseHandle
  split
  · rename_i hzero
    refine .inl ⟨rfl, .inr ?_⟩
    intro h
    obtain ⟨p, r, hf⟩ := h
    exact AddressPool.belongs_ne_zero hf.belongs hzero
  cases hl : leaseRetrieveAddress s.leases m.ciaddr s.allocator.addressPools with
  | none =>
    refine .inl ⟨rfl, .inr ?_⟩
    intro h
    obtain ⟨p, r, hf⟩ := h
    have hsome : leaseRetrieveAddress s.leases m.ciaddr s.allocator.addressPools =
        some ⟨r, p.name⟩ := firstRecord_iff.mpr ⟨p, hf, rfl⟩
    rw [hl] at hsome
    cases hsome
  | some lease =>
    obtain ⟨p, hf, hname⟩ := firstRecord_iff.mp hl
    have hany : (s.leases p.name).any (·.address == m.ciaddr) = true :=
      List.any_eq_true.mpr ⟨_, hf.mem, by simp [hf.address]⟩
    by_cases hopen : env.rewrite = .notOpened
    · exact .inl ⟨by simp [leaseRemove, hopen]; rfl, .inl hopen⟩
    · refine .inr ⟨p, lease.record, hf, hopen, ?_⟩
      simp [leaseRemove_status, hname, hf.address, hany, hopen]

theorem decline_handle_cases (s : Server) (m : Message) :
    (messageDhcpdeclineHandle s m).2 = s ∨
    ∃ ack, transCacheRetrieveMessageLast s.transCache m.xid MsgType.ack = some ack ∧
      ack.yiaddr ≠ 0 ∧ (messageDhcpdeclineHandle s m).2 =
        s.setAllocator (allocatorRequestThisAddress s.allocator ack.yiaddr).2 := by
  unfold messageDhcpdeclineHandle
  cases ha : transCacheRetrieveMessageLast s.transCache m.xid MsgType.ack with
  | none => exact .inl rfl
  | some ack =>
    by_cases hy : ack.yiaddr = 0
    · exact .inl (by simp [hy])
    · by_cases hav : allocatorIsAddressAvailable s.allocator ack.yiaddr = true
      · exact .inr ⟨ack, rfl, hy, by simp [hy, hav]⟩
      · exact .inl (by simp [hy, hav])

/-- Everything that handling an accepted message can do to the server. -/
inductive Effect (env : Env) (s : Server) (m : Message) : Server → Prop
  | ignored : Effect env s m s
  | offered {x : UInt32} {a : AddressAllocator} {pre post : List AddressPool} {p : AddressPool}
      {s' : Server} : m.type = MsgType.discover → obtainAddress s.allocator m = (x, a) →
      s.allocator.Grants a pre p post x →
      Replied env.now (s.setAllocator a) s' (OfferOf m x) → Effect env s m s'
  | refused {s' : Server} : m.type = MsgType.request →
      Replied env.now s s' (ReplyOf m 0 MsgType.nak 6) → Effect env s m s'
  | committed {o50 : DhcpOption} {lease : Lease} {s' : Server} : m.type = MsgType.request →
      m.option Tag.requestedIpAddress = some o50 → Commits env s m o50.ip lease →
      Replied env.now (s.setLeases (leaseAdd true s.leases lease).2) s' (ReplyOf m o50.ip 0 5) →
      Effect env s m s'
  | renewed {p : AddressPool} {r : LeaseRecord} {t : UInt32} {s' : Server} :
      m.type = MsgType.request → m.option Tag.serverIdentifier = none →
      FirstRecord s m.ciaddr p r → r.clientMacAddress = m.mac →
      Replied env.now (s.setLeases (renewedLeases env s p r t)) s' (ReplyOf m m.ciaddr 0 5) →
      Effect env s m s'
  | notRenewed {s' : Server} : m.type = MsgType.request →
      m.option Tag.serverIdentifier = none →
      (¬∃ p r, FirstRecord s m.ciaddr p r ∧ r.clientMacAddress = m.mac) →
      Replied env.now s s' (ReplyOf m m.ciaddr 0 5) → Effect env s m s'
  | informed {s' : Server} : m.type = MsgType.inform →
      Replied env.now s s' (ReplyOf m 0 MsgType.ack 5) → Effect env s m s'
  | released {p : AddressPool} {r : LeaseRecord} : m.type = MsgType.release →
      FirstRecord s m.ciaddr p r → env.rewrite ≠ .notOpened →
      Effect env s m ((s.setLeases (leaseRemove env.rewrite s.leases m.ciaddr p.name).2).setAllocator
        (allocatorReleaseAddress s.allocator m.ciaddr).2)
  | declined {ack : Message} : m.type = MsgType.decline →
      transCacheRetrieveMessageLast s.transCache m.xid MsgType.ack = some ack → ack.yiaddr ≠ 0 →
      Effect env s m (s.setAllocator (allocatorRequestThisAddress s.allocator ack.yiaddr).2)

theorem discover_effect (hs : s.transCache.Sound) (ht : m.type = MsgType.discover) {rv : Int}
    (h : messageDhcpdiscoverHandle env s m = .ok (rv, s')) : Effect env s m s' := by
  unfold messageDhcpdiscoverHandle at h
  rcases obtainAddress_cases s.allocator m with ⟨heq, -⟩ | ⟨x, a, pre, p, post, heq, hne, hg⟩
  · simp only [heq, if_true] at h
    cases h
    exact .ignored
  · simp only [heq, hne, if_false] at h
    refine .offered ht heq hg ?_
    split at h
    · cases h
      exact replied_refl _ _ _
    · obtain ⟨⟨ok, s₁⟩, hb, h⟩ := seq_ok.mp h
      cases h
      exact offerBuild_replied hs hb

theorem request_effect (hs : s.transCache.Sound) (ht : m.type = MsgType.request) {rv : Int}
    (h : messageDhcprequestHandle env s m = .ok (rv, s')) : Effect env s m s' := by
  unfold messageDhcprequestHandle at h
  cases h54 : m.option Tag.serverIdentifier with
  | some o54 =>
    simp only [h54] at h
    obtain ⟨⟨status, s₁⟩, hresp, h⟩ := seq_ok.mp h
    rcases response_cases h54 hresp with ⟨hst, rfl⟩ | ⟨rfl, lease, hc, rfl⟩
    · cases status with
      | ok => exact absurd rfl hst
      | differentServerIdentificator =>
        cases h
        exact .ignored
      | commitError | invalid | error =>
        have hs' : (messageDhcpnakBuild env s₁ m).2 = s' := congrArg Prod.snd (Except.ok.inj h)
        rw [← hs']
        exact .refused ht (nakBuild_replied env hs m)
    · obtain ⟨o50, h50, h⟩ := seq_ok.mp h
      obtain ⟨⟨ok, s₂⟩, hb, h⟩ := seq_ok.mp h
      cases h
      have h50' := deref_eq_ok.mp h50
      have hip : retrieveClientAddress m s.transCache = o50.ip := by
        simp [retrieveClientAddress, h50']
      rw [hip] at hc
      exact .committed ht h50' hc (ackBuild_replied hs hb)
  | none =>
    simp only [h54] at h
    split at h
    · cases h
      exact .ignored
    · obtain ⟨⟨ok₁, s₁⟩, hren, h⟩ := seq_ok.mp h
      obtain ⟨⟨ok, s₂⟩, hb, h⟩ := seq_ok.mp h
      cases h
      rcases renew_cases hren with ⟨rfl, -, hno⟩ | ⟨p, r, t, hf, hmac, -, rfl⟩
      · exact .notRenewed ht h54 hno (ackRenew_replied hs hb)
      · exact .renewed ht h54 hf hmac (ackRenew_replied hs hb)

/-- One lemma for the switch: every outcome of `dispatch` is one of the effects. -/
theorem dispatch_effect (hs : s.transCache.Sound) {rv : Int}
    (h : dispatch env s m = .ok (rv, s')) : Effect env s m s' := by
  unfold dispatch at h
  split at h
  · exact discover_effect hs ‹_› h
  split at h
  · exact request_effect hs ‹_› h
  split at h
  · rename_i ht
    have hs' : (messageDhcpdeclineHandle s m).2 = s' := congrArg Prod.snd (Except.ok.inj h)
    rw [← hs']
    rcases decline_handle_cases s m with heq | ⟨ack, hack, hy, heq⟩
    · rw [heq]
      exact .ignored
    · rw [heq]
      exact .declined ht hack hy
  split at h
  · obtain ⟨⟨ok, s₁⟩, hb, h⟩ := seq_ok.mp h
    cases h
    exact .informed ‹_› (ackInform_replied hs hb)
  split at h
  · rename_i ht
    have hs' : (messageDhcpreleaseHandle env s m).2 = s' := congrArg Prod.snd (Except.ok.inj h)
    rw [← hs']
    rcases release_handle_cases env s m with ⟨heq, -⟩ | ⟨p, r, hf, hopen, heq⟩
    · rw [heq]
      exact .ignored
    · rw [heq]
      exact .released ht hf hopen
  · cases h
    exact .ignored

/-- What a REQUEST that renews a lease leaves behind. -/
theorem renewal_dispatch (hs : s.transCache.Sound) (ht : m.type = MsgType.request)
    (h54 : m.option Tag.serverIdentifier = none) {p : AddressPool} {r : LeaseRecord}
    (hr : FirstRecord s m.ciaddr p r) (hmac : r.clientMacAddress = m.mac) {rv : Int}
    (h : dispatch env s m = .ok (rv, s')) :
    s'.leases = renewedLeases env s p r (configuredLeaseTime s.allocator p) ∧
      s'.allocator = s.allocator := by
  have hne : m.type ≠ MsgType.discover := by
    rw [ht]
    decide
  rw [dispatch, if_neg hne, if_pos ht, messageDhcprequestHandle, h54] at h
  simp only [getPool_ne_zero hr.pool, if_false, renew_eq hr hmac] at h
  obtain ⟨⟨renewed, s₁⟩, hren, h⟩ := seq_ok.mp h
  obtain ⟨⟨ok, s₂⟩, hb, h⟩ := seq_ok.mp h
  cases h
  cases hren
  have hrep := ackRenew_replied (s := s.setLeases (renewedLeases env s p r
    (configuredLeaseTime s.allocator p))) hs hb
  exact ⟨hrep.leases, hrep.allocator⟩

theorem mem_renewedLeases {p : AddressPool} {r r' : LeaseRecord} {t : UInt32} {n : CString}
    (h : r' ∈ renewedLeases env s p r t n) :
    r' ∈ s.leases n ∨ (n = p.name ∧ r' = r.extend env.now t) :=
  (mem_leaseAdd h).imp mem_leaseRemove id

/-- A file that cannot be opened is left alone. -/
theorem renewedLeases_notOpened {p : AddressPool} {r : LeaseRecord}
    (hopen : env.rewrite = .notOpened) (t : UInt32) :
    renewedLeases env s p r t = s.leases := by
  simp [renewedLeases, Env.extends, hopen, leaseAdd, leaseRemove]

theorem mem_renewedLeases_self {p : AddressPool} {r : LeaseRecord}
    (hext : env.extends = true) (t : UInt32) :
    r.extend env.now t ∈ renewedLeases env s p r t p.name := by
  rw [renewedLeases, hext]
  exact mem_leaseAdd_self ⟨r.extend env.now t, p.name⟩

/-- Where the records after handling a message come from: they are old ones, possibly extended,
or the one that is committed. -/
theorem Effect.record_cases (h : Effect env s m s') {n : CString} {r : LeaseRecord}
    (hr : r ∈ s'.leases n) :
    (∃ r₀ ∈ s.leases n, r₀.address = r.address ∧ r₀.clientMacAddress = r.clientMacAddress) ∨
    ∃ o50 lease, m.type = MsgType.request ∧ m.option Tag.requestedIpAddress = some o50 ∧
      Commits env s m o50.ip lease ∧ n = lease.poolName ∧ r = lease.record := by
  have hsame : r ∈ s.leases n →
      ∃ r₀ ∈ s.leases n, r₀.address = r.address ∧ r₀.clientMacAddress = r.clientMacAddress :=
    fun h => ⟨r, h, rfl, rfl⟩
  cases h with
  | ignored | declined _ _ _ => exact .inl (hsame hr)
  | offered _ _ _ hrep | refused _ hrep | informed _ hrep | notRenewed _ _ _ hrep =>
    rw [hrep.leases] at hr
    exact .inl (hsame hr)
  | committed ht h50 hc hrep =>
    rw [hrep.leases, Server.setLeases_leases] at hr
    exact (mem_leaseAdd hr).imp hsame fun h => ⟨_, _, ht, h50, hc, h⟩
  | renewed _ _ hf _ hrep =>
    rw [hrep.leases, Server.setLeases_leases] at hr
    rcases mem_renewedLeases hr with hr | ⟨rfl, rfl⟩
    · exact .inl (hsame hr)
    · exact .inl ⟨_, hf.mem, rfl, rfl⟩
  | released _ _ _ => exact .inl (hsame (mem_leaseRemove hr))

end Handlers

end DHCPServer
