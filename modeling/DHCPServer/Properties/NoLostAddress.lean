import DHCPServer.Properties.Lookups

namespace DHCPServer

/-- The cache holds an OFFER of the address in a transaction that is running. -/
def OfferHeld (cache : TransactionCache) (x : UInt32) : Prop :=
  ∃ o, cache.Holds o ∧ o.type = MsgType.offer ∧ o.yiaddr = x

/-- Every address whose bit is set has a lease record in the pool's file or an OFFER in a running
transaction. -/
def NoLostAddress (s : Server) : Prop :=
  ∀ p ∈ s.allocator.addressPools, ∀ x, p.isAllocated x = true →
    (∃ r ∈ s.leases p.name, r.address = x) ∨ OfferHeld s.transCache x

/-- The OFFER for a DISCOVER can be made and sent: its lease time is not 0 and its options fit
into a packet, whichever pool the address comes from. -/
structure OfferGoesOut (env : Env) (s : Server) (m : Message) : Prop where
  duration : getLeaseDuration s.allocator m ≠ 0
  fits : ∀ x options, offerOptions s.allocator m x = .ok (some options) →
    wireSize options ≤ packetOptionsSize
  sends : env.sends = true

/-- Passes that lose no address. When transactions time out, the allocated address of each OFFER in
them has a lease, is given back, or is offered in a transaction that goes on; a DISCOVER that
gets an address gets its OFFER; a renewed lease can be written; and `lease_remove` leaves no file
empty that has records of other addresses. -/
def losesNothing : PassCondition where
  tick := fun env s =>
    (∀ t ∈ s.transCache, expires env.now t = true → ∀ o ∈ t.messages,
      o.type = MsgType.offer → s.allocator.isAllocated o.yiaddr = true →
        (∃ p ∈ s.allocator.addressPools, addressBelongsToPool p o.yiaddr = true ∧
          ∃ r ∈ s.leases p.name, r.address = o.yiaddr) ∨
        o.yiaddr ∈ returnedAddresses env.now s.transCache ∨
        ∃ t' ∈ s.transCache, t'.timer.isRunning = true ∧ expires env.now t' = false ∧
          ∃ o' ∈ t'.messages, o'.type = MsgType.offer ∧ o'.yiaddr = o.yiaddr) ∧
    (checkDue env.now s = true → ∀ p ∈ s.allocator.addressPools, ∀ r ∈ s.leases p.name,
      r.leaseExpire ≤ env.now → env.sweeps p.name r.address = .notWritten →
        ∀ r' ∈ s.leases p.name, r'.address = r.address)
  message := fun env s m =>
    (m.type = MsgType.discover → ¬NoAddressFor s.allocator m → OfferGoesOut env s m) ∧
    (m.type = MsgType.request → m.option Tag.serverIdentifier = none → ∀ p r,
      FirstRecord s m.ciaddr p r → r.clientMacAddress = m.mac →
        env.rewrite ≠ .notWritten ∧ (env.rewrite = .done → env.writes = true)) ∧
    (m.type = MsgType.release → ∀ p r, FirstRecord s m.ciaddr p r →
      env.rewrite = .notWritten → ∀ r' ∈ s.leases p.name, r'.address = m.ciaddr)

/-- The server is started with pools that do not overlap. -/
def StartedDisjoint (s : Server) : Prop :=
  ∃ cfg files now, s = startup cfg files now ∧ s.allocator.Disjoint

/-- `NoLostAddress` in terms of the pool that is found for an address. -/
def Kept (a : AddressAllocator) (l : LeaseStore) (cache : TransactionCache) : Prop :=
  ∀ p ∈ a.addressPools, ∀ x, addressBelongsToPool p x = true → a.isAllocated x = true →
    (∃ r ∈ l p.name, r.address = x) ∨ OfferHeld cache x

section Keeping

variable {env : Env} {now : UInt32} {s s' : Server} {m : Message} {a a' : AddressAllocator}
  {l l' : LeaseStore} {cache cache' : TransactionCache}

/-- Addresses stay kept when none becomes allocated, the allocated ones keep their records and the
OFFERs stay. -/
theorem Kept.of (h : Kept a l cache) (hshape : a'.shape = a.shape)
    (halloc : ∀ x, a'.isAllocated x = true → a.isAllocated x = true)
    (hl : ∀ n x, a'.isAllocated x = true → (∃ r ∈ l n, r.address = x) →
      ∃ r ∈ l' n, r.address = x)
    (hc : ∀ x, OfferHeld cache x → OfferHeld cache' x) : Kept a' l' cache' := by
  intro p' hp' x hb hx
  obtain ⟨p, hp, hs⟩ := AddressAllocator.exists_same_shape hshape hp'
  have hname : p.name = p'.name := congrArg Prod.fst hs
  have hb' := (AddressPool.belongs_of_shape hs x).trans hb
  rw [← hname]
  exact (h p hp x hb' (halloc x hx)).imp (hl p.name x hx) (hc x)

/-- An address that is newly allocated is kept by its OFFER. -/
theorem Kept.grant {pre post : List AddressPool} {p : AddressPool} {x : UInt32}
    (h : Kept a l cache) (hg : a.Grants a' pre p post x) (hx : OfferHeld cache' x)
    (hc : ∀ y, OfferHeld cache y → OfferHeld cache' y) : Kept a' l cache' := by
  intro p' hp' y hb hy
  by_cases hyx : y = x
  · exact .inr (hyx ▸ hx)
  · obtain ⟨q, hq, hs⟩ := AddressAllocator.exists_same_shape hg.shape hp'
    have hname : q.name = p'.name := congrArg Prod.fst hs
    rw [hg.isAllocated_ne hyx] at hy
    rw [← hname]
    exact (h q hq y ((AddressPool.belongs_of_shape hs y).trans hb) hy).imp id (hc y)

/-- A renewal that does not lose the record leaves every address with a record one. -/
theorem renewedLeases_keeps {p : AddressPool} {r : LeaseRecord} {n : CString} {x : UInt32}
    (hcut : env.rewrite ≠ .notWritten) (hw : env.rewrite = .done → env.writes = true) (t : UInt32)
    (h : ∃ r₀ ∈ s.leases n, r₀.address = x) :
    ∃ r' ∈ renewedLeases env s p r t n, r'.address = x := by
  obtain ⟨r₀, hr₀, rfl⟩ := h
  by_cases hn : n = p.name
  · subst hn
    by_cases hr : r₀.address = r.address
    · by_cases hdone : env.rewrite = .done
      · have hext := Env.extends_iff.mpr ⟨hw hdone, by rw [hdone]; decide, hcut⟩
        exact ⟨r.extend env.now t, mem_renewedLeases_self hext t, hr.symm⟩
      · -- the file that cannot be cut keeps the old record
        refine ⟨r₀, mem_leaseAdd_of_mem ?_, rfl⟩
        rwa [leaseRemove_untouched hdone hcut]
    · exact ⟨r₀, mem_leaseAdd_of_mem (mem_leaseRemove_of_ne (absurd · hcut) hr hr₀), rfl⟩
  · refine ⟨r₀, mem_leaseAdd_of_mem ?_, rfl⟩
    rw [leaseRemove_other _ hn]
    exact hr₀

theorem OfferHeld.add (ha : cache.Adds cache' m) (hs : cache.Sound) {x : UInt32}
    (h : OfferHeld cache x) : OfferHeld cache' x := by
  obtain ⟨o, ho, htype, hx⟩ := h
  exact ⟨o, (ha.holds hs).mpr (.inl ho), htype, hx⟩

theorem Replied.offerHeld {P : Message → Prop} (h : Replied now s s' P) (hs : s.transCache.Sound)
    {x : UInt32} (hx : OfferHeld s.transCache x) : OfferHeld s'.transCache x := by
  rcases h.reply with ⟨-, hc⟩ | ⟨k, -, -, hc | hadds⟩
  · rwa [hc]
  · rwa [hc]
  · exact hx.add hadds hs

/-- The addresses that are still allocated after a pass of the timers were so before, have not been
given back, and have kept their records, unless a file that has other records is left empty. -/
theorem updateTimers_allocated (hc : losesNothing.tick env s) :
    ∀ x, (updateTimers env s).allocator.isAllocated x = true →
      s.allocator.isAllocated x = true ∧ x ∉ returnedAddresses env.now s.transCache ∧
      ∀ n, (∃ r ∈ s.leases n, r.address = x) → ∃ r ∈ (updateTimers env s).leases n,
        r.address = x := by
  refine (updateTimers_rule (P := fun a l => (∀ n, ∀ r ∈ l n, r ∈ s.leases n) ∧
    ∀ x, a.isAllocated x = true →
    s.allocator.isAllocated x = true ∧ x ∉ returnedAddresses env.now s.transCache ∧
    ∀ n, (∃ r ∈ s.leases n, r.address = x) → ∃ r ∈ l n, r.address = x) ?_ ?_).2
  · refine ⟨fun _ _ hr => hr, ?_⟩
    intro x hx
    rw [releaseAll_isAllocated, Bool.and_eq_true, Bool.not_eq_true', ← Bool.not_eq_true,
      List.contains_iff_mem] at hx
    exact ⟨hx.1, hx.2, fun n h => h⟩
  · rintro hdue a l p x₀ r ⟨hsub, hP⟩ hp _ hfirst hexp _
    refine ⟨fun n r hr => hsub n r (mem_leaseRemove hr), ?_⟩
    intro x hx
    rw [AddressAllocator.release_isAllocated, Bool.and_eq_true, bne_iff_ne] at hx
    obtain ⟨halloc, hret, hrec⟩ := hP x hx.1
    refine ⟨halloc, hret, ?_⟩
    intro n h
    obtain ⟨r', hr', rfl⟩ := hrec n h
    have hr : r ∈ s.leases p.name := hsub _ r (List.mem_of_find?_eq_some hfirst)
    have haddr : r.address = x₀ := by simpa using List.find?_some hfirst
    refine ⟨r', mem_leaseRemove_of_ne (fun hcut r₂ hr₂ => ?_) hx.2 hr', rfl⟩
    rw [← haddr] at hcut ⊢
    exact hc.2 hdue p hp r hr hexp hcut r₂ (hsub _ r₂ hr₂)

theorem updateTimers_kept (hd : s.allocator.Disjoint)
    (h : Kept s.allocator s.leases s.transCache) (hc : losesNothing.tick env s) :
    Kept (updateTimers env s).allocator (updateTimers env s).leases
      (updateTimers env s).transCache := by
  intro p' hp' x hb' hx
  obtain ⟨p, hp, hshape⟩ := AddressAllocator.exists_same_shape (updateTimers_shape env s) hp'
  have hname : p.name = p'.name := congrArg Prod.fst hshape
  have hb := (AddressPool.belongs_of_shape hshape x).trans hb'
  obtain ⟨halloc, hret, hrec⟩ := updateTimers_allocated hc x hx
  have hgoes : ∀ t ∈ s.transCache, t.timer.isRunning = true → expires env.now t = false →
      ∀ o ∈ t.messages, o.type = MsgType.offer → o.yiaddr = x →
      OfferHeld (updateTimers env s).transCache x := by
    intro t ht hrun he o ho htype hy
    rw [updateTimers_transCache]
    exact ⟨o, update_holds.mpr ⟨t, ht, hrun, he, ho⟩, htype, hy⟩
  rw [← hname]
  rcases h p hp x hb halloc with hr | ⟨o, ⟨t, ht, hrun, ho⟩, htype, rfl⟩
  · exact .inl (hrec p.name hr)
  · cases he : expires env.now t with
    | false => exact .inr (hgoes t ht hrun he o ho htype rfl)
    | true =>
      rcases hc.1 t ht he o ho htype halloc with
        ⟨q, hq, hbq, hr⟩ | hmem | ⟨t', ht', hrun', he', o', ho', htype', hy'⟩
      · have hpool := AddressAllocator.getPool_of_belongs hd hp hb
        have hpool' := AddressAllocator.getPool_of_belongs hd hq hbq
        obtain rfl : p = q := Option.some.inj (hpool.symm.trans hpool')
        exact .inl (hrec p.name hr)
      · exact absurd hmem hret
      · exact .inr (hgoes t' ht' hrun' he' o' ho' htype' hy')

end Keeping

section Offering

variable {env : Env} {s s' : Server} {m : Message} {rv : Int} {x : UInt32}

theorem configured_isSome {globalOptions : List DhcpOption} {tag : UInt8}
    (h : (dhcpOptionRetrieve globalOptions tag).isSome) (poolOptions : List DhcpOption) :
    (configuredOption globalOptions poolOptions tag).isSome := by
  unfold configuredOption
  split
  · rfl
  · exact h

/-- The options of an OFFER are built as soon as the pool is found and options 51 and 54 are
configured. -/
theorem offerOptions_some {a : AddressAllocator}
    (h51 : (dhcpOptionRetrieve a.defaultOptions Tag.ipAddressLeaseTime).isSome)
    (h54 : (dhcpOptionRetrieve a.defaultOptions Tag.serverIdentifier).isSome)
    (h55 : (m.option Tag.parameterRequestList).isSome) (hpool : a.hasPool x = true) :
    ∃ options, offerOptions a m x = .ok (some options) := by
  obtain ⟨o55, h55⟩ := Option.isSome_iff_exists.mp h55
  obtain ⟨pool, hpool⟩ := Option.isSome_iff_exists.mp hpool
  have hreq : ∀ tag ∈ zeroTerminated [51, 54, 0],
      (configuredOption a.defaultOptions pool.dhcpOptionOverride tag).isSome := by
    intro tag htag
    have hcases : tag = 51 ∨ tag = 54 := by simpa [zeroTerminated, List.takeWhile] using htag
    rcases hcases with rfl | rfl
    · exact configured_isSome h51 _
    · exact configured_isSome h54 _
  have hbuild : (dhcpOptionBuildRequiredOptions [50, 55, 61, 57, 0] a.defaultOptions
      pool.dhcpOptionOverride [] (o55.value.data.take o55.lenght.toNat) [51, 54, 0] 2).isSome :=
    build_isSome [] hreq
  obtain ⟨built, hbuilt⟩ := Option.isSome_iff_exists.mp hbuild
  have hget : getRequestedDhcpOptions [51, 54, 0] [50, 55, 61, 57, 0] 2 a m x = .ok (some built) := by
    unfold getRequestedDhcpOptions
    rw [h55, hpool, ← hbuilt]
    rfl
  unfold offerOptions
  rw [hget]
  cases h61 : m.option Tag.clientIdentifier with
  | none => exact ⟨built, rfl⟩
  | some o61 => exact ⟨_, rfl⟩

theorem offerOptions_of_shape {a a' : AddressAllocator} (h : a'.shape = a.shape) :
    offerOptions a' m x = offerOptions a m x := by
  have hopts : a'.defaultOptions = a.defaultOptions := congrArg Prod.fst h
  have hpool := AddressAllocator.getPool_of_shape h x
  unfold offerOptions getRequestedDhcpOptions
  cases hp : allocatorGetPoolByAddress a x with
  | none =>
    rw [hp, Option.map_none, Option.map_eq_none_iff] at hpool
    rw [hpool]
  | some p =>
    rw [hp, Option.map_some, Option.map_eq_some_iff] at hpool
    obtain ⟨p', hp', hshape⟩ := hpool
    have hover : p'.dhcpOptionOverride = p.dhcpOptionOverride :=
      congrArg (fun t => t.2.2.2.2) hshape
    rw [hp', hopts]
    simp only [hover]

/-- A reply that fits and can be sent is cached beside the message it answers. -/
theorem deliver_cached (hs : s.transCache.Sound) (hst : s.transCache.Stores m) (reply : Message)
    (hx : reply.xid = m.xid) (hcookie : reply.cookie = magicCookie)
    (hfits : wireSize reply.dhcpOptions ≤ packetOptionsSize) (hsends : env.sends = true)
    (destination : UInt32) :
    ∃ p, (deliver env s reply destination).2.transCache.Holds
      ((reply.setPacket p).setTime env.now) := by
  obtain ⟨p, hp⟩ := dhcpPacketBuild_message reply
  have hbuilt : (dhcpPacketBuild reply).1 = true := by
    unfold dhcpPacketBuild
    rw [if_neg (not_not.mpr hcookie)]
    exact serializeFrom_fits (by omega) _
  obtain ⟨cache, hadd, hadds⟩ := TransactionCache.add_of_stores env.now hs hst
    (show (reply.setPacket p).xid = m.xid from hx)
  refine ⟨p, ?_⟩
  have hdel : (deliver env s reply destination).2.transCache = cache := by
    unfold deliver
    simp only [hbuilt, hp, hsends, Bool.not_true, Bool.false_eq_true, if_false,
      Server.pushSent_transCache, hadd]
    rfl
  rw [hdel]
  exact (hadds.holds hs).mpr (.inr rfl)

/-- A DISCOVER that gets an address gets its OFFER cached, under the conditions. -/
theorem discover_offerHeld {a : AddressAllocator} (hs : s.transCache.Sound)
    (hst : s.transCache.Stores m) (hcookie : m.cookie = magicCookie)
    (h51 : (dhcpOptionRetrieve s.allocator.defaultOptions Tag.ipAddressLeaseTime).isSome)
    (h54 : (dhcpOptionRetrieve s.allocator.defaultOptions Tag.serverIdentifier).isSome)
    (hgo : OfferGoesOut env s m) (hobt : obtainAddress s.allocator m = (x, a)) (hx : x ≠ 0)
    (hshape : a.shape = s.allocator.shape) (hpool : s.allocator.hasPool x = true)
    (h : messageDhcpdiscoverHandle env s m = .ok (rv, s')) : OfferHeld s'.transCache x := by
  have hdur := hgo.duration
  rw [← getLeaseDuration_of_shape hshape] at hdur
  unfold messageDhcpdiscoverHandle at h
  simp only [hobt, hx, if_false, Server.setAllocator_allocator, hdur] at h
  obtain ⟨⟨ok, s₁⟩, hb, h⟩ := seq_ok.mp h
  cases h
  obtain ⟨options, hopts, hb⟩ := seq_ok.mp hb
  rw [Server.setAllocator_allocator, offerOptions_of_shape hshape] at hopts
  -- the parameter request list has been found, so the options are built
  have h55 : (m.option Tag.parameterRequestList).isSome := by
    obtain ⟨built, hbuilt, -⟩ := seq_ok.mp hopts
    obtain ⟨o55, ho55, -⟩ := getRequested_ok hbuilt
    rw [ho55]
    rfl
  obtain ⟨opts, hsome⟩ := offerOptions_some h51 h54 h55 hpool
  obtain rfl : options = some opts := Except.ok.inj (hopts.symm.trans hsome)
  obtain ⟨p, hheld⟩ := deliver_cached (s := s.setAllocator a) hs hst
    ((replyTo m 0 x s.boundIp m.giaddr MsgType.offer).setOptions opts) rfl hcookie
    (hgo.fits x opts hsome) hgo.sends s.broadcastAddr
  have hs₁ : _ = s₁ := congrArg Prod.snd (Except.ok.inj hb)
  rw [← hs₁]
  exact ⟨_, hheld, rfl, rfl⟩

end Offering

section Runs

variable {env : Env} {s s' : Server} {m : Message}

theorem dispatch_discover (ht : m.type = MsgType.discover) :
    dispatch env s m = messageDhcpdiscoverHandle env s m := by
  rw [dispatch, if_pos ht]

/-- Cached messages of the type ACK answer an INFORM and carry no address. -/
theorem cacheable_ack : Cacheable fun o => o.type = MsgType.ack → o.yiaddr = 0 := by
  refine ⟨?_, ?_, ?_, ?_, ?_⟩
  · intro s m s' hacc ht
    exact absurd ht hacc.notAck
  · intro m x r now hr ht
    exact absurd (hr.type.symm.trans ht) (by decide)
  · intro m r now hr _
    exact hr.yiaddr
  · intro m x r now hr ht
    exact absurd (hr.type.symm.trans ht) (by decide)
  · intro m r now hr _
    exact hr.yiaddr

/-- What a run keeps: the configuration, and an explanation for every allocated address. -/
structure Accounted (s : Server) : Prop where
  disjoint : s.allocator.Disjoint
  leaseTime : (dhcpOptionRetrieve s.allocator.defaultOptions Tag.ipAddressLeaseTime).isSome
  serverId : (dhcpOptionRetrieve s.allocator.defaultOptions Tag.serverIdentifier).isSome
  acks : s.transCache.All fun o => o.type = MsgType.ack → o.yiaddr = 0
  kept : Kept s.allocator s.leases s.transCache

theorem Accounted.next (h : Accounted s) (hshape : s'.allocator.shape = s.allocator.shape)
    (ha : s'.transCache.All fun o => o.type = MsgType.ack → o.yiaddr = 0)
    (hk : Kept s'.allocator s'.leases s'.transCache) : Accounted s' := by
  have hopts : s'.allocator.defaultOptions = s.allocator.defaultOptions := congrArg Prod.fst hshape
  exact ⟨AddressAllocator.disjoint_of_shape hshape h.disjoint, hopts ▸ h.leaseTime,
    hopts ▸ h.serverId, ha, hk⟩

theorem Effect.kept (heff : Effect env s m s') {s₀ : Server} {rv : Int} (h : Accounted s)
    (hs : s.transCache.Sound) (hacc : Accepts s₀ m s) (hc : losesNothing.message env s m)
    (hdisp : dispatch env s m = .ok (rv, s')) : Kept s'.allocator s'.leases s'.transCache := by
  have hshape := heff.shape
  cases heff with
  | ignored => exact h.kept
  | offered ht hobt hg hr =>
    have hx := AddressPool.belongs_ne_zero hg.belongs
    have hsome : ¬NoAddressFor s.allocator m := by
      intro hno
      have hzero := obtainAddress_of_noAddress hno
      rw [hobt] at hzero
      exact hx hzero
    have hpool := (AddressAllocator.hasPool_eq_true s.allocator _).mpr
      ⟨_, by simp [hg.before], hg.belongs⟩
    have hheld := discover_offerHeld hs hacc.adds.stores hacc.cookie h.leaseTime h.serverId
      (hc.1 ht hsome) hobt hx hg.shape hpool (dispatch_discover ht ▸ hdisp)
    rw [hr.allocator, hr.leases]
    exact h.kept.grant hg hheld fun y hy => hr.offerHeld hs hy
  | refused _ hr | informed _ hr | notRenewed _ _ _ hr =>
    rw [hr.allocator, hr.leases]
    exact h.kept.of rfl (fun _ hx => hx) (fun _ _ _ h => h) fun x hx => hr.offerHeld hs hx
  | committed _ _ _ hr =>
    rw [hr.allocator, hr.leases, Server.setLeases_leases]
    refine h.kept.of rfl (fun _ hx => hx) ?_ fun x hx => hr.offerHeld hs hx
    rintro n x - ⟨r, hr, hx⟩
    exact ⟨r, mem_leaseAdd_of_mem hr, hx⟩
  | renewed ht h54 hf hmac hr =>
    rw [hr.allocator, hr.leases, Server.setLeases_leases]
    obtain ⟨hcut, hw⟩ := hc.2.1 ht h54 _ _ hf hmac
    exact h.kept.of rfl (fun _ hx => hx) (fun n x _ hx => renewedLeases_keeps hcut hw _ hx)
      fun x hx => hr.offerHeld hs hx
  | released ht hf _ =>
    refine h.kept.of hshape ?_ ?_ fun x hx => hx
    · intro x hx
      rw [Server.setAllocator_allocator, AddressAllocator.release_isAllocated,
        Bool.and_eq_true] at hx
      exact hx.1
    · rintro n x hx ⟨r, hr, rfl⟩
      rw [Server.setAllocator_allocator, AddressAllocator.release_isAllocated, Bool.and_eq_true,
        bne_iff_ne] at hx
      exact ⟨r, mem_leaseRemove_of_ne (hc.2.2 ht _ _ hf) hx.2 hr, rfl⟩
  | declined _ hack hy =>
    obtain ⟨hzero, htype⟩ := h.acks.retrieveLast hack
    exact absurd (hzero htype) hy

/-- In every run whose passes lose nothing, every allocated address has a lease or an OFFER that
is still running. -/
theorem no_allocated_address_is_lost (h : Reachable serve losesNothing.Holds StartedDisjoint s) :
    NoLostAddress s := by
  have hinv : Accounted s := by
    refine (run_rule (P := Accounted) ?_ ?_ ?_ ?_ ?_ h).2
    · intro s h
      obtain ⟨cfg, files, now, rfl, hd⟩ := h
      obtain ⟨h51, h54⟩ := startup_options cfg files now
      refine ⟨startup_sound cfg files now, hd, h51, h54, startup_all cfg files now _, ?_⟩
      intro p hp x hb hx
      rw [AddressAllocator.isAllocated_of_belongs hd hp hb] at hx
      exact .inl (startup_recorded hp hx)
    · intro env s hs hP hc
      refine hP.next (updateTimers_shape env s) ?_ (updateTimers_kept hP.disjoint hP.kept hc)
      rw [updateTimers_transCache]
      exact update_all hP.acks
    · intro s s' hP hr hc
      exact ⟨hr.allocator ▸ hP.disjoint, hr.allocator ▸ hP.leaseTime, hr.allocator ▸ hP.serverId,
        hc ▸ hP.acks, by rw [hr.allocator, hr.leases, hc]; exact hP.kept⟩
    · intro env s m s' hs hP hacc _
      have hshape : s'.allocator.shape = s.allocator.shape := by rw [hacc.allocator]
      refine hP.next hshape (hacc.adds.all hP.acks (cacheable_ack.accepted _ _ _ hacc)) ?_
      rw [hacc.allocator, hacc.leases]
      exact hP.kept.of rfl (fun _ hx => hx) (fun _ _ _ h => h) fun x hx => hx.add hacc.adds hs
    · intro env s₀ s m s' rv hs hacc hP hc hdisp heff
      exact hP.next heff.shape (heff.all cacheable_ack hP.acks) (heff.kept hP hs hacc hc hdisp)
  intro p hp x hx
  have hb := AddressPool.belongs_of_isAllocated hx
  rw [← AddressAllocator.isAllocated_of_belongs hinv.disjoint hp hb] at hx
  exact hinv.kept p hp x hb hx

end Runs

section SmallNetwork

theorem offerOptions_of_pool {a : AddressAllocator} {m : Message} {x y : UInt32}
    (h : allocatorGetPoolByAddress a x = allocatorGetPoolByAddress a y) :
    offerOptions a m x = offerOptions a m y := by
  unfold offerOptions getRequestedDhcpOptions
  rw [h]

/-- The options fit whichever address is offered, if they do for the first one of each pool. -/
theorem offer_fits {a : AddressAllocator} {m : Message} (hd : a.Disjoint)
    (h : ∀ p ∈ a.addressPools, ∀ options, offerOptions a m p.startAddress = .ok (some options) →
      wireSize options ≤ packetOptionsSize) {x : UInt32} {options : List DhcpOption}
    (hx : offerOptions a m x = .ok (some options)) : wireSize options ≤ packetOptionsSize := by
  obtain ⟨⟨p, hp⟩, -⟩ := offerOptions_ok hx
  have hmem := List.mem_of_find?_eq_some hp
  have hstart : addressBelongsToPool p p.startAddress = true := by
    have ho := UInt32.lt_iff_toNat_lt.mp p.ordered
    rw [AddressPool.belongs_iff]
    omega
  have hsame := hp.trans (AddressAllocator.getPool_of_belongs hd hmem hstart).symm
  rw [offerOptions_of_pool hsame] at hx
  exact h p hmem options hx

/-- A test for the OFFER to fit. -/
def offerFits (a : AddressAllocator) (m : Message) : Bool :=
  decide (a.addressPools.Pairwise fun p q => p.endAddress < q.startAddress) &&
  a.addressPools.all fun p =>
    match offerOptions a m p.startAddress with
    | .ok (some options) => decide (wireSize options ≤ packetOptionsSize)
    | _ => true

theorem offerFits_fits {a : AddressAllocator} {m : Message} (h : offerFits a m = true) :
    ∀ x options, offerOptions a m x = .ok (some options) →
      wireSize options ≤ packetOptionsSize := by
  rw [offerFits, Bool.and_eq_true, decide_eq_true_eq, List.all_eq_true] at h
  intro x options hx
  refine offer_fits (AddressAllocator.disjoint_of_increasing h.1) ?_ hx
  intro p hp opts ho
  have hp' := h.2 p hp
  rw [ho] at hp'
  simpa using hp'

/-- A test for passes that lose nothing. -/
def losesNothingTest (s : Server) (e : Event) : Bool :=
  (s.transCache.all fun t => !expires e.env.now t || t.messages.all fun o =>
    o.type != MsgType.offer || (returnedAddresses e.env.now s.transCache).contains o.yiaddr) &&
  (s.allocator.addressPools.all fun p => (s.leases p.name).all fun r =>
    e.env.sweeps p.name r.address != .notWritten) &&
  e.env.sends && e.env.writes && e.env.rewrite != .notWritten &&
  (handled s e).all fun r =>
    getLeaseDuration r.2.allocator r.1 != 0 && offerFits r.2.allocator r.1

theorem losesNothingTest_holds (s : Server) (e : Event) (h : losesNothingTest s e = true) :
    losesNothing.Holds s e := by
  simp only [losesNothingTest, Bool.and_eq_true, List.all_eq_true, Bool.or_eq_true,
    Bool.not_eq_true', bne_iff_ne, List.contains_iff_mem] at h
  obtain ⟨⟨⟨⟨⟨htick, hsweeps⟩, hsends⟩, hwrites⟩, hcut⟩, hmsg⟩ := h
  refine ⟨⟨?_, fun _ p hp r hr _ hw => absurd hw (hsweeps p hp r hr)⟩, ?_⟩
  · intro t ht he o ho htype _
    rcases htick t ht with hno | hall
    · rw [he] at hno
      cases hno
    · rcases hall o ho with hno | hmem
      · exact absurd htype hno
      · exact .inr (.inl hmem)
  · intro m s₂ hm
    simp only [hm, Option.all_some, Bool.and_eq_true, bne_iff_ne] at hmsg
    exact ⟨fun _ _ => ⟨hmsg.1, offerFits_fits hmsg.2, hsends⟩,
      fun _ _ _ _ _ _ => ⟨hcut, fun _ => hwrites⟩, fun _ _ _ _ h => absurd h hcut⟩

theorem startedDisjoint_small (files : LeaseStore) :
    StartedDisjoint (startup smallNetwork files 1000) :=
  ⟨_, _, _, rfl, AddressAllocator.disjoint_of_shape (smallNetwork_shape files)
    smallAllocator_wellFormed.disjoint⟩

/-- The lease of 10.0.0.1 and an offer of 10.0.0.2 account for the addresses in use. -/
theorem lease_and_offer_accounted :
    ∃ s, Reachable serve losesNothing.Holds StartedDisjoint s ∧
      s.allocator.isAllocated 0x0a000001 = true ∧ s.allocator.isAllocated 0x0a000002 = true ∧
      NoLostAddress s := by
  have hrun : ([discoverBy 1001 9 2].foldlM (Reachable.checked serve losesNothingTest)
      leasedServer).any (fun s => s.allocator.isAllocated 0x0a000001 &&
        s.allocator.isAllocated 0x0a000002) = true := by decide +kernel
  obtain ⟨s, hs, htest⟩ := Reachable.of_run losesNothingTest_holds [discoverBy 1001 9 2]
    (startedDisjoint_small leasedFiles) hrun
  rw [Bool.and_eq_true] at htest
  exact ⟨s, hs, htest.1, htest.2, no_allocated_address_is_lost hs⟩

/-- A DISCOVER is sent twice under one xid and the transaction times out. -/
def repeatedDiscover : List Event := [discoverBy 1001 7 1, discoverBy 1002 7 1, passes 1061]

theorem repeated_discover_loses_address :
    ¬∀ s, Reachable serve PassCondition.always.Holds StartedDisjoint s → NoLostAddress s := by
  intro h
  have hrun : (repeatedDiscover.foldlM (Reachable.checked serve fun _ _ => true) smallServer).any
      (fun s => s.allocator.addressPools.any fun p => p.addresses.any fun x => p.isAllocated x &&
        (s.leases p.name).all (·.address != x) &&
        s.transCache.all fun t => t.messages.all (·.yiaddr != x)) = true := by decide +kernel
  obtain ⟨s, hs, htest⟩ := Reachable.of_run (fun s e _ => PassCondition.always_holds s e)
    repeatedDiscover (startedDisjoint_small fun _ => []) hrun
  simp only [List.any_eq_true, Bool.and_eq_true, List.all_eq_true, bne_iff_ne] at htest
  obtain ⟨p, hp, x, -, ⟨hx, hrecs⟩, hmsgs⟩ := htest
  rcases h s hs p hp x hx with ⟨r, hr, haddr⟩ | ⟨o, ⟨t, ht, -, ho⟩, -, hy⟩
  · exact hrecs r hr haddr
  · exact hmsgs t ht o ho hy

end SmallNetwork

end DHCPServer
