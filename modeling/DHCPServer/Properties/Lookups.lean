import DHCPServer.Server.Startup

namespace DHCPServer

/-- Neither the address a DISCOVER asks for nor any other can be handed out. -/
def NoAddressFor (a : AddressAllocator) (m : Message) : Prop :=
  (∀ q ∈ a.addressPools, AddressAllocator.passedOver q) ∧
    ∀ o50, m.option Tag.requestedIpAddress = some o50 →
      allocatorIsAddressAvailable a o50.ip = false

/-- No cached OFFER carries the requested-address option. -/
def OffersLackAddress (cache : TransactionCache) : Prop :=
  cache.All fun o => o.type = MsgType.offer → o.option Tag.requestedIpAddress = none

/-- What a message has to carry for every lookup its handler relies on to succeed. -/
structure LookupsSucceed (env : Env) (s : Server) (m : Message) : Prop where
  discover : m.type = MsgType.discover → (m.option Tag.parameterRequestList).isSome ∨
    NoAddressFor s.allocator m ∨ getLeaseDuration s.allocator m = 0
  request : m.type = MsgType.request → ∀ o54 o50, m.option Tag.serverIdentifier = some o54 →
    o54.ip = s.boundIp → m.ciaddr = 0 → m.yiaddr = 0 →
    validateClientIdAndRequestedParams (env.seen s.transCache) m = true →
    m.option Tag.requestedIpAddress = some o50 → o50.ip ≠ 0 → s.allocator.hasPool o50.ip = true
  renewal : m.type = MsgType.request → m.option Tag.serverIdentifier = none → m.ciaddr ≠ 0 →
    (m.option Tag.parameterRequestList).isSome
  inform : m.type = MsgType.inform → m.ciaddr ≠ 0 → (m.option Tag.parameterRequestList).isSome

section Builders

variable {env : Env} {s : Server} {m : Message} {a : AddressAllocator} {x : UInt32} {f : Fault}

theorem getRequested_error {required blacklisted : List UInt8} {type : UInt8} :
    getRequestedDhcpOptions required blacklisted type a m x = .error f ↔
      m.option Tag.parameterRequestList = none ∧ f = .nullDeref := by
  unfold getRequestedDhcpOptions
  rw [seq_error, deref_eq_error]
  constructor
  · rintro (h | ⟨o55, -, h⟩)
    · exact h
    · cases hp : allocatorGetPoolByAddress a x with
      | none =>
        rw [hp] at h
        cases h
      | some pool =>
        rw [hp] at h
        cases h
  · exact .inl

theorem sendAck_error {ack : Message} {options : Except Fault (Option (List DhcpOption))} :
    sendAck env s ack options = .error f ↔ options = .error f := by
  unfold sendAck
  rw [seq_error]
  constructor
  · rintro (h | ⟨options, -, h⟩)
    · exact h
    · cases options <;> cases h
  · exact .inl

theorem offerBuild_error {d : UInt32} : messageDhcpofferBuild env s m x d = .error f ↔
    m.option Tag.parameterRequestList = none ∧ f = .nullDeref := by
  unfold messageDhcpofferBuild offerOptions
  rw [seq_error, seq_error, getRequested_error]
  constructor
  · rintro ((h | ⟨options, -, h⟩) | ⟨options, -, h⟩)
    · exact h
    · cases options with
      | none => cases h
      | some options =>
        cases h61 : m.option Tag.clientIdentifier with
        | none =>
          simp only [h61] at h
          cases h
        | some o61 =>
          simp only [h61] at h
          cases h
    · cases options <;> cases h
  · exact fun h => .inl (.inl h)

end Builders

section Handlers

variable {env : Env} {s : Server} {m : Message} {f : Fault}

open AddressAllocator in
theorem obtainAddress_of_noAddress {a : AddressAllocator} (h : NoAddressFor a m) :
    (obtainAddress a m).1 = 0 := by
  have hany : (allocateRandomAddress a).1 = 0 := by
    rcases requestAny_cases a with ⟨pre, p, post, x, a', -, hg, -, hav, -⟩ | ⟨heq, -⟩
    · have hp : p ∈ a.addressPools := by simp [hg.before]
      rcases h.1 p hp with hz | hfull
      · exact absurd hz hav
      · have halloc := hfull x hg.belongs
        rw [hg.free] at halloc
        cases halloc
    · simp [allocateRandomAddress, heq]
  have hthis : (allocateParticularAddress a m) = (0, a) := by
    unfold allocateParticularAddress
    cases h50 : m.option Tag.requestedIpAddress with
    | none => rfl
    | some o50 =>
      have hav := h.2 o50 h50
      rcases requestThis_cases a o50.ip with ⟨heq, -⟩ | ⟨heq, -⟩ | ⟨pre, p, post, a', -, hg, hpre⟩
      · simp [heq]
      · simp [heq]
      · have hfree : a.isAllocated o50.ip = false := by
          rw [isAllocated_eq, hg.before, allocatedIn_first hpre hg.belongs]
          exact hg.free
        have hpool : a.hasPool o50.ip = true :=
          (hasPool_eq_true _ _).mpr ⟨p, by simp [hg.before], hg.belongs⟩
        rw [isAvailable_eq, hpool, hfree] at hav
        cases hav
  unfold obtainAddress
  rw [hthis]
  simpa using hany

theorem getLeaseDuration_of_shape {a a' : AddressAllocator} (h : a'.shape = a.shape) :
    getLeaseDuration a' m = getLeaseDuration a m := by
  have ho : a'.defaultOptions = a.defaultOptions := congrArg Prod.fst h
  rw [getLeaseDuration, getLeaseDuration, ho]

theorem discover_error : messageDhcpdiscoverHandle env s m = .error f ↔
    f = .nullDeref ∧ m.option Tag.parameterRequestList = none ∧ ¬NoAddressFor s.allocator m ∧
      getLeaseDuration s.allocator m ≠ 0 := by
  unfold messageDhcpdiscoverHandle
  rcases obtainAddress_cases s.allocator m with ⟨heq, hno⟩ | ⟨x, a, pre, p, post, heq, hne, hg⟩
  · simp only [heq, if_true]
    constructor
    · intro h
      cases h
    · intro hh
      obtain ⟨-, -, h, -⟩ := hh
      exact absurd hno h
  · have hobt : ¬NoAddressFor s.allocator m := by
      intro hno
      have hzero := obtainAddress_of_noAddress hno
      rw [heq] at hzero
      exact hne hzero
    have hdur : getLeaseDuration a m = getLeaseDuration s.allocator m :=
      getLeaseDuration_of_shape hg.shape
    simp only [heq, hne, if_false, Server.setAllocator_allocator, hdur]
    by_cases hz : getLeaseDuration s.allocator m = 0
    · simp only [hz, if_true, ne_eq, not_true, and_false, iff_false]
      intro h
      cases h
    · simp only [hz, if_false, seq_error, offerBuild_error, ne_eq, not_false_eq_true, and_true,
        hobt]
      constructor
      · rintro (h | ⟨r, -, h⟩)
        · exact ⟨h.2, h.1⟩
        · cases h
      · exact fun h => .inl ⟨h.2, h.1⟩

/-- A renewal looks the lease time up in the pool in which it has found the lease. -/
theorem renewLease_ok (env : Env) (s : Server) (m : Message) :
    ∃ r, dhcpRequestRenewLease env s m = .ok r := by
  by_cases hren : Renewable s m
  · obtain ⟨p, r, hr, hmac⟩ := hren
    exact ⟨_, renew_eq hr hmac⟩
  · exact ⟨_, renew_none hren⟩

theorem retrieveLeaseTime_error {x : UInt32} {a : AddressAllocator} (hx : x ≠ 0) :
    retrieveLeaseTime x a = .error f ↔ a.hasPool x = false ∧ f = .nullDeref := by
  have hpool : a.hasPool x = false ↔ allocatorGetPoolByAddress a x = none := by
    simp [AddressAllocator.hasPool]
  unfold retrieveLeaseTime
  rw [if_neg hx, hpool, seq_error, deref_eq_error]
  constructor
  · rintro (h | ⟨pool, -, h⟩)
    · exact h
    · split at h <;> cases h
  · exact .inl

theorem response_error {o54 : DhcpOption} : dhcpRequestResponseToOffer env s m o54 = .error f ↔
    f = .nullDeref ∧ o54.ip = s.boundIp ∧ m.ciaddr = 0 ∧ m.yiaddr = 0 ∧
      validateClientIdAndRequestedParams (env.seen s.transCache) m = true ∧
      retrieveClientAddress m s.transCache ≠ 0 ∧
      s.allocator.hasPool (retrieveClientAddress m s.transCache) = false := by
  unfold dhcpRequestResponseToOffer
  generalize retrieveClientAddress m s.transCache = x
  constructor
  · intro h
    split at h
    · cases h
    split at h
    · cases h
    split at h
    · cases h
    dsimp only at h
    split at h
    · cases h
    rename_i hip haddrs hvalid hx
    split at h
    · cases h
    rcases seq_error.mp h with h | ⟨t, -, h⟩
    · obtain ⟨hpool, rfl⟩ := (retrieveLeaseTime_error hx).mp h
      rw [not_or, not_not, not_not] at haddrs
      exact ⟨rfl, not_not.mp hip, haddrs.1, haddrs.2, by simpa using hvalid, hx, hpool⟩
    · split at h
      · cases h
      · rcases commit_cases env s m t x with heq | ⟨p, -, -, heq⟩
        · rw [heq] at h
          cases h
        · rw [heq] at h
          cases h
  · intro h
    obtain ⟨rfl, hip, hci, hyi, hvalid, hx, hpool⟩ := h
    have hav : allocatorIsAddressAvailable s.allocator x = false := by
      rw [AddressAllocator.isAvailable_eq, hpool]
      rfl
    have htime : retrieveLeaseTime x s.allocator = .error .nullDeref :=
      (retrieveLeaseTime_error hx).mpr ⟨hpool, rfl⟩
    rw [if_neg (not_not.mpr hip), if_neg (by simp [hci, hyi]), if_neg (by simp [hvalid]),
      if_neg hx, if_neg (by simp [hav]), htime]
    rfl

/-- The OFFERs the server caches never carry option 50, so the address is the client's. -/
theorem retrieveClientAddress_ne_zero (hoffers : OffersLackAddress s.transCache)
    (h : retrieveClientAddress m s.transCache ≠ 0) :
    ∃ o50, m.option Tag.requestedIpAddress = some o50 ∧
      retrieveClientAddress m s.transCache = o50.ip := by
  cases h50 : m.option Tag.requestedIpAddress with
  | some o50 => exact ⟨o50, rfl, by simp [retrieveClientAddress, h50]⟩
  | none =>
    refine absurd ?_ h
    unfold retrieveClientAddress
    rw [h50]
    cases ho : transCacheRetrieveMessage s.transCache m.xid MsgType.offer with
    | none => rfl
    | some offer =>
      obtain ⟨hno, htype⟩ := TransactionCache.All.retrieve hoffers ho
      simp [hno htype]

theorem validate_parameters {cache : TransactionCache}
    (h : validateClientIdAndRequestedParams cache m = true) :
    (m.option Tag.parameterRequestList).isSome := by
  unfold validateClientIdAndRequestedParams at h
  split at h
  · cases h
  · cases h55 : m.option Tag.parameterRequestList with
    | some o55 => rfl
    | none => simp [h55] at h

/-- Once a lease is committed, both options the acknowledgement needs are there. -/
theorem committed_options {o54 : DhcpOption} {s' : Server}
    (hoffers : OffersLackAddress s.transCache) (h54 : m.option Tag.serverIdentifier = some o54)
    (h : dhcpRequestResponseToOffer env s m o54 = .ok (.ok, s')) :
    (∃ o50, m.option Tag.requestedIpAddress = some o50) ∧
      (m.option Tag.parameterRequestList).isSome := by
  rcases response_cases h54 h with ⟨hst, -⟩ | ⟨-, lease, hc, -⟩
  · exact absurd rfl hst
  · obtain ⟨p, t, hp, -⟩ := hc.pool
    have hb : addressBelongsToPool p (retrieveClientAddress m s.transCache) = true := by
      simpa using List.find?_some hp
    obtain ⟨o50, h50, -⟩ := retrieveClientAddress_ne_zero hoffers (AddressPool.belongs_ne_zero hb)
    exact ⟨⟨o50, h50⟩, validate_parameters hc.valid⟩

theorem request_error_of_server {o54 : DhcpOption} (hoffers : OffersLackAddress s.transCache)
    (h54 : m.option Tag.serverIdentifier = some o54) :
    messageDhcprequestHandle env s m = .error f ↔
      dhcpRequestResponseToOffer env s m o54 = .error f := by
  unfold messageDhcprequestHandle
  rw [h54]
  dsimp only
  rw [seq_error]
  constructor
  · rintro (h | ⟨⟨status, s₁⟩, hresp, h⟩)
    · exact h
    · cases status with
      | differentServerIdentificator => cases h
      | commitError | invalid | error => cases h
      | ok =>
        obtain ⟨⟨o50, h50⟩, h55⟩ := committed_options hoffers h54 hresp
        simp only [h50, deref] at h
        rcases seq_error.mp h with h | ⟨o, -, h⟩
        · cases h
        rcases seq_error.mp h with h | ⟨r, -, h⟩
        · have hnone := (getRequested_error.mp (sendAck_error.mp h)).1
          simp [hnone] at h55
        · cases h
  · exact .inl

theorem request_error_of_renewal (h54 : m.option Tag.serverIdentifier = none) :
    messageDhcprequestHandle env s m = .error f ↔
      f = .nullDeref ∧ m.ciaddr ≠ 0 ∧ m.option Tag.parameterRequestList = none := by
  unfold messageDhcprequestHandle
  rw [h54]
  dsimp only
  by_cases hci : m.ciaddr = 0
  · rw [if_pos hci]
    constructor
    · intro h
      cases h
    · intro h
      obtain ⟨-, hne, -⟩ := h
      exact absurd hci hne
  · rw [if_neg hci]
    obtain ⟨⟨ok, s₁⟩, hren⟩ := renewLease_ok env s m
    rw [hren]
    constructor
    · intro h
      rcases seq_error.mp h with h | ⟨r, hr, h⟩
      · cases h
      rcases seq_error.mp h with h | ⟨r, -, h⟩
      · obtain ⟨h55, hf⟩ := getRequested_error.mp (sendAck_error.mp h)
        exact ⟨hf, hci, h55⟩
      · cases h
    · intro h
      obtain ⟨hf, -, h55⟩ := h
      refine seq_error.mpr (.inr ⟨(ok, s₁), rfl, seq_error.mpr (.inl ?_)⟩)
      exact sendAck_error.mpr (getRequested_error.mpr ⟨h55, hf⟩)

theorem request_error (hoffers : OffersLackAddress s.transCache) :
    messageDhcprequestHandle env s m = .error f ↔ f = .nullDeref ∧
      ((∃ o54 o50, m.option Tag.serverIdentifier = some o54 ∧ o54.ip = s.boundIp ∧ m.ciaddr = 0 ∧
        m.yiaddr = 0 ∧ validateClientIdAndRequestedParams (env.seen s.transCache) m = true ∧
        m.option Tag.requestedIpAddress = some o50 ∧ o50.ip ≠ 0 ∧
        s.allocator.hasPool o50.ip = false) ∨
      (m.option Tag.serverIdentifier = none ∧ m.ciaddr ≠ 0 ∧
        m.option Tag.parameterRequestList = none)) := by
  cases h54 : m.option Tag.serverIdentifier with
  | some o54 =>
    rw [request_error_of_server hoffers h54, response_error]
    simp only [Option.some.injEq, reduceCtorEq, false_and, or_false]
    constructor
    · intro h
      obtain ⟨hf, hip, hci, hyi, hvalid, hx, hpool⟩ := h
      obtain ⟨o50, h50, heq⟩ := retrieveClientAddress_ne_zero hoffers hx
      rw [heq] at hx hpool
      exact ⟨hf, o54, o50, rfl, hip, hci, hyi, hvalid, h50, hx, hpool⟩
    · intro h
      obtain ⟨hf, _, o50, rfl, hip, hci, hyi, hvalid, h50, hx, hpool⟩ := h
      have heq : retrieveClientAddress m s.transCache = o50.ip := by
        simp [retrieveClientAddress, h50]
      exact ⟨hf, hip, hci, hyi, hvalid, heq ▸ hx, heq ▸ hpool⟩
  | none =>
    rw [request_error_of_renewal h54]
    simp only [reduceCtorEq, false_and, exists_false, false_or, true_and]

theorem inform_error : messageDhcpinformHandle env s m = .error f ↔
    f = .nullDeref ∧ m.ciaddr ≠ 0 ∧ m.option Tag.parameterRequestList = none := by
  unfold messageDhcpinformHandle messageDhcpackBuildInformResponse
  rw [seq_error]
  by_cases hci : m.ciaddr = 0
  · rw [if_pos hci]
    simp only [hci, ne_eq, not_true, false_and, and_false, iff_false]
    rintro (h | ⟨r, -, h⟩) <;> cases h
  · rw [if_neg hci, sendAck_error, getRequested_error]
    constructor
    · rintro (⟨h55, hf⟩ | ⟨r, -, h⟩)
      · exact ⟨hf, hci, h55⟩
      · cases h
    · exact fun h => .inl ⟨h.2.2, h.1⟩

end Handlers

theorem cached_offers_lack_address {c : PassCondition} {s : Server}
    (h : Reachable serve c.Holds Started s) :
    s.transCache.Sound ∧ OffersLackAddress s.transCache := by
  refine cached_rule ?_ ⟨?_, ?_, ?_, ?_, ?_⟩ h
  · intro s h
    obtain ⟨cfg, files, now, rfl⟩ := h
    exact ⟨startup_sound cfg files now, startup_all cfg files now _⟩
  · intro s m s' hacc ht
    exact absurd ht hacc.notOffer
  · intro m x r now hr _
    exact hr.noAddressOption
  · intro m r now hr ht
    exact absurd (hr.type.symm.trans ht) (by decide)
  · intro m x r now hr ht
    exact absurd (hr.type.symm.trans ht) (by decide)
  · intro m r now hr ht
    exact absurd (hr.type.symm.trans ht) (by decide)

theorem lookups_discover {s : Server} {m : Message} (ht : m.type = MsgType.discover) :
    LookupsSucceed env s m ↔ ¬(m.option Tag.parameterRequestList = none ∧
      ¬NoAddressFor s.allocator m ∧ getLeaseDuration s.allocator m ≠ 0) := by
  rw [not_and_or, not_and_or, not_not, not_not, ← ne_eq, Option.ne_none_iff_isSome]
  constructor
  · exact fun h => h.discover ht
  · intro h
    refine ⟨fun _ => h, fun hr => ?_, fun hr => ?_, fun hi => ?_⟩
    · exact absurd (ht.symm.trans hr) (by decide)
    · exact absurd (ht.symm.trans hr) (by decide)
    · exact absurd (ht.symm.trans hi) (by decide)

theorem lookups_inform {s : Server} {m : Message} (ht : m.type = MsgType.inform) :
    LookupsSucceed env s m ↔ ¬(m.ciaddr ≠ 0 ∧ m.option Tag.parameterRequestList = none) := by
  rw [not_and, ← ne_eq (m.option _), Option.ne_none_iff_isSome]
  constructor
  · exact fun h => h.inform ht
  · intro h
    refine ⟨fun hd => ?_, fun hr => ?_, fun hr => ?_, fun _ => h⟩
    · exact absurd (ht.symm.trans hd) (by decide)
    · exact absurd (ht.symm.trans hr) (by decide)
    · exact absurd (ht.symm.trans hr) (by decide)

theorem lookups_request {s : Server} {m : Message} (ht : m.type = MsgType.request) :
    LookupsSucceed env s m ↔
      ¬((∃ o54 o50, m.option Tag.serverIdentifier = some o54 ∧ o54.ip = s.boundIp ∧ m.ciaddr = 0 ∧
          m.yiaddr = 0 ∧ validateClientIdAndRequestedParams (env.seen s.transCache) m = true ∧
          m.option Tag.requestedIpAddress = some o50 ∧ o50.ip ≠ 0 ∧
          s.allocator.hasPool o50.ip = false) ∨
        (m.option Tag.serverIdentifier = none ∧ m.ciaddr ≠ 0 ∧
          m.option Tag.parameterRequestList = none)) := by
  rw [not_or]
  constructor
  · intro h
    constructor
    · rintro ⟨o54, o50, h54, hip, hci, hyi, hvalid, h50, hx, hpool⟩
      rw [h.request ht o54 o50 h54 hip hci hyi hvalid h50 hx] at hpool
      cases hpool
    · rintro ⟨h54, hci, h55⟩
      have hsome := h.renewal ht h54 hci
      rw [h55] at hsome
      cases hsome
  · rintro ⟨hreq, hren⟩
    refine ⟨fun hd => ?_, ?_, ?_, fun hi => ?_⟩
    · exact absurd (ht.symm.trans hd) (by decide)
    · intro _ o54 o50 h54 hip hci hyi hvalid h50 hx
      by_contra hpool
      exact hreq ⟨o54, o50, h54, hip, hci, hyi, hvalid, h50, hx, by simpa using hpool⟩
    · intro _ h54 hci
      by_contra h55
      exact hren ⟨h54, hci, by simpa using h55⟩
    · exact absurd (ht.symm.trans hi) (by decide)

theorem dispatch_error {env : Env} {s : Server} {m : Message}
    (hoffers : OffersLackAddress s.transCache) :
    dispatch env s m ≠ .error .nullDeref ↔ LookupsSucceed env s m := by
  unfold dispatch
  by_cases hd : m.type = MsgType.discover
  · rw [if_pos hd, lookups_discover hd, ne_eq, discover_error]
    exact not_congr (and_iff_right rfl)
  rw [if_neg hd]
  by_cases hr : m.type = MsgType.request
  · rw [if_pos hr, lookups_request hr, ne_eq, request_error hoffers]
    exact not_congr (and_iff_right rfl)
  rw [if_neg hr]
  by_cases hi : m.type = MsgType.inform
  · have hdec : m.type ≠ MsgType.decline := by
      rw [hi]
      decide
    rw [if_neg hdec, if_pos hi, lookups_inform hi, ne_eq, inform_error]
    exact not_congr (and_iff_right rfl)
  -- the handlers of the other types do not use an option or a pool
  have hok : LookupsSucceed env s m :=
    ⟨fun h => absurd h hd, fun h => absurd h hr, fun h => absurd h hr, fun h => absurd h hi⟩
  refine iff_of_true ?_ hok
  rw [if_neg hi]
  intro h
  split at h
  · cases h
  · split at h <;> cases h

/-- In every reachable state, handling a message follows no failed lookup exactly when the message
carries what its handler relies on. -/
theorem handling_never_uses_failed_lookup_iff {s s₂ : Server} {e : Event} {m : Message}
    (hs : Reachable serve PassCondition.always.Holds Started s)
    (hm : handled s e = some (m, s₂)) :
    dispatch e.env s₂ m ≠ .error .nullDeref ↔ LookupsSucceed e.env s₂ m := by
  obtain ⟨hsound, hoffers⟩ := cached_offers_lack_address hs
  have hacc := handled_accepts hsound hm
  refine dispatch_error (hacc.adds.all ?_ fun ht => absurd ht hacc.notOffer)
  rw [updateTimers_transCache]
  exact update_all hoffers

/-- A client that asks for an address and names no parameters. -/
def discoverWithoutParameters : Event :=
  receives 1000 (clientPacket 7 0 [2, 0, 0, 0, 0, 1] [53, 1, 1, 255])

theorem discoverWithoutParameters_lookups_iff :
    ∃ m s₂, handled smallServer discoverWithoutParameters = some (m, s₂) ∧
      (dispatch discoverWithoutParameters.env s₂ m ≠ .error .nullDeref ↔
        LookupsSucceed discoverWithoutParameters.env s₂ m) := by
  have hsome : (handled smallServer discoverWithoutParameters).isSome = true := by decide +kernel
  obtain ⟨⟨m, s₂⟩, hm⟩ := Option.isSome_iff_exists.mp hsome
  exact ⟨m, s₂, hm, handling_never_uses_failed_lookup_iff (.start smallServer_started) hm⟩

theorem discover_without_parameters_follows_null :
    ¬∀ s e m s₂, Reachable serve PassCondition.always.Holds Started s →
      handled s e = some (m, s₂) → dispatch e.env s₂ m ≠ .error .nullDeref := by
  intro h
  have hfault : (handled smallServer discoverWithoutParameters).bind
      (fun r => faultOf (dispatch discoverWithoutParameters.env r.2 r.1)) =
        some .nullDeref := by decide +kernel
  obtain ⟨⟨m, s₂⟩, hm, hf⟩ := Option.bind_eq_some_iff.mp hfault
  exact h _ _ m s₂ (.start smallServer_started) hm (faultOf_eq_some.mp hf)

end DHCPServer
