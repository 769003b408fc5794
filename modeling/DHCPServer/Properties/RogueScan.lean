import DHCPServer.Packet.Codec
import DHCPServer.Properties.Lookups
import DHCPServer.Properties.TimerFirings
import DHCPServer.Security.DhcpSnoop

namespace DHCPServer

section Deadline

variable {start last now : UInt32} {ls : List Listen}

end Deadline

section Hearing

variable {whitelist : List UInt32} {xid : UInt32} {m : Message} {status : CString}

end Hearing

section Verdict

variable {w : ScanWorld} {mac : CString} {whitelist : List UInt32}

/-- The option of a scan's DISCOVER. -/
def discoverType : DhcpOption := dhcpOptionNewValues Tag.dhcpMessageType 1 [1]

theorem discover_options (w : ScanWorld) (mac : CString) :
    (w.discover mac).dhcpOptions = [discoverType] := rfl

theorem discover_fits (w : ScanWorld) (mac : CString) :
    wireSize (w.discover mac).dhcpOptions ≤ packetOptionsSize := by
  rw [discover_options]
  decide

end Verdict

section Probe

variable {w : ScanWorld} {mac : CString} {s s₂ : Server} {e : Event} {m : Message}

/-- The DISCOVER of a scan as it goes out. -/
def ScanWorld.packet (w : ScanWorld) (mac : CString) : Datagram :=
  ⟨(dhcpPacketBuild (w.discover mac)).2.packet.data, (Buffer.length_data _).le⟩

/-- Every receiver parses the DISCOVER of a scan to a message with its transaction and its hardware
address, in which no other option than the message type is found. -/
theorem receive_scan_packet (w : ScanWorld) (mac : CString) (m₀ : Message) :
    ∃ m, receive m₀ (w.packet mac) = .ok (true, m) ∧ m.xid = w.rand ∧
      m.mac = (w.discover mac).mac ∧ m.type = MsgType.discover ∧
      ∀ tag, tag ≠ Tag.dhcpMessageType → m.option tag = none := by
  have hbuffer : (m₀.setPacket (m₀.packet.write 0 (w.packet mac).bytes)).packet =
      (dhcpPacketBuild (w.discover mac)).2.packet := Buffer.write_data _ _
  have hs : Sendable (w.discover mac).dhcpOptions := by
    rw [discover_options]
    exact ⟨by decide, by decide, List.nodup_singleton _⟩
  have h53 : dhcpOptionRetrieve (w.discover mac).dhcpOptions Tag.dhcpMessageType =
      some discoverType := rfl
  have hparse := dhcpPacketParse_build rfl hs (discover_fits w mac) h53 hbuffer
  have hcarries : CarriesHeader (w.discover mac)
      (m₀.setPacket (m₀.packet.write 0 (w.packet mac).bytes)).packet := by
    rw [hbuffer]
    exact dhcpPacketBuild_header rfl
  have hheader := parseHeader_sameHeader hcarries
    ((w.discover mac).dhcpOptions.map DhcpOption.reparsed) discoverType.reparsed.number
  have htype : discoverType.reparsed.number = MsgType.discover := by decide +kernel
  refine ⟨_, hparse, hheader.xid, ?_, htype, ?_⟩
  · apply Buffer.ext_get
    intro k hk
    rw [Message.mac, Message.mac, Buffer.get_slice _ _ _ hk, Buffer.get_slice _ _ _ hk, Nat.zero_add]
    exact hheader.chaddr k (by omega)
  · intro tag htag
    apply dhcpOptionRetrieve_eq_none.mpr
    intro o ho
    obtain ⟨o', ho', rfl⟩ := List.mem_map.mp ho
    obtain rfl := List.mem_singleton.mp ho'
    exact htag.symm

/-- The server that scans drops the DISCOVER of its own scan. -/
theorem scan_packet_dropped {env : Env} (hx : env.xidUsedInScan = some w.rand) :
    handled s ⟨env, some (w.packet mac)⟩ = none := by
  obtain ⟨m, hr, hxid, -⟩ := receive_scan_packet w mac (updateTimers env s).dhcpMsg
  have hdrop : accept env (updateTimers env s) (w.packet mac) =
      .ok (none, (updateTimers env s).setDhcpMsg m) := by
    refine seq_ok.mpr ⟨(true, m), hr, ?_⟩
    rw [← hxid] at hx
    simp only [hx, Bool.not_true, Bool.false_eq_true, if_false, if_true]
    rfl
  rw [handled, Option.bind_some, hdrop]
  rfl

/-- A server of the same program that takes the DISCOVER of another one's scan for handling, in any
state, follows a null pointer exactly when some pool has an address to hand out and the lease time
is not 0; the scanning server itself knows the message by its transaction and drops it. -/
theorem scan_discover_faults_iff (hd : e.datagram = some (w.packet mac))
    (hm : handled s e = some (m, s₂)) :
    dhcpSnooperCheckXid w.rand m.xid = true ∧ m.mac = (w.discover mac).mac ∧
      (∀ env s, env.xidUsedInScan = some w.rand →
        handled s ⟨env, some (w.packet mac)⟩ = none) ∧
      (serve s e = .error .nullDeref ↔
        (∃ p ∈ s₂.allocator.addressPools, ¬AddressAllocator.passedOver p) ∧
          ∃ o51, dhcpOptionRetrieve s₂.allocator.defaultOptions Tag.ipAddressLeaseTime = some o51 ∧
            o51.number ≠ 0) := by
  obtain ⟨d, hd', ha⟩ := handled_eq_some.mp hm
  obtain rfl : w.packet mac = d := Option.some.inj (hd.symm.trans hd')
  obtain ⟨m', hr, hmsg, -⟩ := accept_received ha
  obtain ⟨m'', hr', hxid, hmac, htype, hopt⟩ :=
    receive_scan_packet w mac (updateTimers e.env s).dhcpMsg
  obtain rfl : m' = m'' := by
    rw [hr] at hr'
    exact (Prod.mk.inj (Except.ok.inj hr')).2
  subst hmsg
  refine ⟨by simp [dhcpSnooperCheckXid, hxid], hmac, fun _ _ => scan_packet_dropped, ?_⟩
  have hserve : serve s e = .error .nullDeref ↔
      messageDhcpdiscoverHandle e.env s₂ (m'.setTime e.env.now) = .error .nullDeref := by
    have hdispatch : dispatch e.env s₂ (m'.setTime e.env.now) =
        messageDhcpdiscoverHandle e.env s₂ (m'.setTime e.env.now) := by
      rw [dispatch, if_pos (by simpa using htype)]
    simp only [serve, hd]
    rw [serveDatagram, ha, ← hdispatch]
    show (dispatch e.env s₂ (m'.setTime e.env.now) >>= fun r => pure r.2) = _ ↔ _
    rw [seq_error]
    constructor
    · rintro (h | ⟨r, -, h⟩)
      · exact h
      · cases h
    · exact .inl
  have hnone : ∀ tag, tag ≠ Tag.dhcpMessageType → (m'.setTime e.env.now).option tag = none := hopt
  have hno : NoAddressFor s₂.allocator (m'.setTime e.env.now) ↔
      ∀ q ∈ s₂.allocator.addressPools, AddressAllocator.passedOver q := by
    rw [NoAddressFor, hnone Tag.requestedIpAddress (by decide)]
    simp
  have hlease : getLeaseDuration s₂.allocator (m'.setTime e.env.now) ≠ 0 ↔
      ∃ o51, dhcpOptionRetrieve s₂.allocator.defaultOptions Tag.ipAddressLeaseTime = some o51 ∧
        o51.number ≠ 0 := by
    rw [getLeaseDuration, hnone Tag.ipAddressLeaseTime (by decide)]
    cases dhcpOptionRetrieve s₂.allocator.defaultOptions Tag.ipAddressLeaseTime <;> simp
  rw [hserve, discover_error, hno, hlease, hnone Tag.parameterRequestList (by decide)]
  simp

end Probe

section Example

/-- An OFFER of the server 10.0.0.9, called "x", to the transaction 7. -/
def rogueOffer : Datagram :=
  ⟨[2, 1, 6, 0, 0, 0, 0, 7] ++ List.replicate 228 0 ++
    [0x63, 0x82, 0x53, 0x63, 53, 1, 2, 54, 4, 10, 0, 0, 9, 12, 1, 120, 255], by decide +kernel⟩

/-- A scan from 1000 to 1011 with the transaction 7 that hears this OFFER. -/
def scanOfRogue : ScanWorld where
  rand := 7
  socket := true
  sends := true
  macBuffer := Buffer.zero 6
  start := 1000
  listens := [⟨1000, none⟩, ⟨1003, some rogueOffer⟩, ⟨1011, none⟩, ⟨1012, some rogueOffer⟩]

/-- The small network's server takes the DISCOVER of that scan in. -/
def peerReceives : Event := receives 1001 (scanOfRogue.packet "02:00:00:00:00:01".toList)

theorem scan_faults_small_server : serve smallServer peerReceives = .error .nullDeref := by
  have hsome : (handled smallServer peerReceives).isSome = true := by decide +kernel
  obtain ⟨⟨m, s₂⟩, hm⟩ := Option.isSome_iff_exists.mp hsome
  have hfree : (handled smallServer peerReceives).all (fun r =>
      r.2.allocator.addressPools.any (fun p => p.availableAddresses != 0 &&
        p.addresses.any fun x => !p.isAllocated x) &&
      (dhcpOptionRetrieve r.2.allocator.defaultOptions Tag.ipAddressLeaseTime).any
        (·.number != 0)) = true := by decide +kernel
  rw [hm, Option.all_some, Bool.and_eq_true, List.any_eq_true, Option.any_eq_true] at hfree
  obtain ⟨⟨p, hp, hfree⟩, o51, ho, hlease⟩ := hfree
  rw [Bool.and_eq_true, List.any_eq_true] at hfree
  obtain ⟨hcount, x, hx, hx'⟩ := hfree
  apply (scan_discover_faults_iff rfl hm).2.2.2.mpr
  refine ⟨⟨p, hp, ?_⟩, o51, ho, by simpa using hlease⟩
  rintro (hzero | hfull)
  · exact absurd hzero (by simpa using hcount)
  · rw [hfull x (AddressPool.mem_addresses.mp hx)] at hx'
    cases hx'

end Example

end DHCPServer
