import DHCPServer.Server.Delivery
import DHCPServer.Server.Startup

namespace DHCPServer

/-- Handling a message has sent a DHCPNAK. -/
def SendsNak (s s' : Server) : Prop :=
  ∃ k ∈ s'.sent.drop s.sent.length, k.message.wireType = some MsgType.nak

section Refusals

variable {env : Env} {s s' : Server} {m : Message} {P : Message → Prop}

theorem not_sendsNak_self (s : Server) : ¬SendsNak s s := by
  rintro ⟨k, hk, -⟩
  simp at hk

/-- The type on the wire is not touched when a packet is built. -/
theorem wireType_packet (reply : Message) :
    (dhcpPacketBuild reply).2.wireType = reply.wireType := by
  obtain ⟨p, hp⟩ := dhcpPacketBuild_message reply
  rw [hp]
  rfl

theorem DeliversSome.not_sendsNak (h : DeliversSome env s s' P)
    (hP : ∀ reply, P reply → reply.wireType ≠ some MsgType.nak) : ¬SendsNak s s' := by
  rcases h with rfl | ⟨reply, hreply, h⟩
  · exact not_sendsNak_self s'
  · cases h with
    | kept => exact not_sendsNak_self s
    | sent destination =>
      intro ⟨k, hk, hnak⟩
      have hmessage : k.message = (dhcpPacketBuild reply).2 := by
        simp only [Server.setTransCache_sent, Server.pushSent_sent, List.drop_left,
          List.mem_singleton] at hk
        rw [hk]
      rw [hmessage, wireType_packet] at hnak
      exact hP reply hreply hnak

/-- An acknowledgement goes out with the type of one. -/
theorem ackBuild_not_sendsNak {ok : Bool} {d a : UInt32}
    (h : messageDhcpackBuild env s m d a = .ok (ok, s')) : ¬SendsNak s s' := by
  apply DeliversSome.not_sendsNak (P := fun reply => reply.wireType = some MsgType.ack)
  · apply sendAck_delivers h
    intro options hopts
    obtain ⟨pool, requested, -, hbuild⟩ := getRequested_some hopts
    exact wireType_of_build hbuild rfl
  · intro reply hack
    rw [hack]
    decide

/-- The checks end in an acknowledgement, or leave the server as it is. -/
theorem request_response_cases {o54 : DhcpOption} {rv : Int}
    (h54 : m.option Tag.serverIdentifier = some o54)
    (h : messageDhcprequestHandle env s m = .ok (rv, s')) :
    s' = s ∨ s' = (messageDhcpnakBuild env s m).2 ∨ ¬SendsNak s s' := by
  unfold messageDhcprequestHandle at h
  simp only [h54] at h
  obtain ⟨⟨status, s₁⟩, hresp, h⟩ := seq_ok.mp h
  rcases response_cases h54 hresp with ⟨hst, rfl⟩ | ⟨rfl, lease, -, rfl⟩
  · cases status with
    | ok => exact absurd rfl hst
    | differentServerIdentificator =>
      cases h
      exact .inl rfl
    | commitError | invalid | error => exact .inr (.inl (congrArg Prod.snd (Except.ok.inj h)).symm)
  · obtain ⟨o50, -, h⟩ := seq_ok.mp h
    obtain ⟨⟨ok, s₂⟩, hack, h⟩ := seq_ok.mp h
    cases h
    have hno : ¬SendsNak (s.setLeases (leaseAdd true s.leases lease).2) s₂ :=
      ackBuild_not_sendsNak hack
    exact .inr (.inr hno)

/-- A REQUEST for another server is ignored, and one that is refused changes neither the pools nor
the leases. -/
theorem refused_request_changes_nothing (env : Env) (s : Server) (m : Message) (o54 : DhcpOption)
    (h54 : m.option Tag.serverIdentifier = some o54) :
    (o54.ip ≠ s.boundIp → messageDhcprequestHandle env s m = .ok (0, s)) ∧
      ∀ rv s', messageDhcprequestHandle env s m = .ok (rv, s') → SendsNak s s' →
        s'.allocator = s.allocator ∧ s'.leases = s.leases := by
  constructor
  · intro hother
    simp only [messageDhcprequestHandle, h54, dhcpRequestResponseToOffer, if_pos hother]
    rfl
  · intro rv s' h hnak
    rcases request_response_cases h54 h with rfl | rfl | hno
    · exact ⟨rfl, rfl⟩
    · have hd : DeliversSome env s (messageDhcpnakBuild env s m).2 fun _ => True :=
        nakBuild_delivers env s m fun _ _ => trivial
      exact ⟨hd.allocator, hd.leases⟩
    · exact absurd hnak hno

end Refusals

/-- A REQUEST without a DISCOVER before it is refused. -/
theorem unoffered_request_changes_nothing : ∃ m s₂ rv s',
    handled smallServer (requestBy 1001 7 1 1) = some (m, s₂) ∧
    messageDhcprequestHandle (requestBy 1001 7 1 1).env s₂ m = .ok (rv, s') ∧ SendsNak s₂ s' ∧
    s'.allocator = s₂.allocator ∧ s'.leases = s₂.leases := by
  have hany : (handled smallServer (requestBy 1001 7 1 1)).any (fun r =>
      (r.1.option Tag.serverIdentifier).isSome &&
      (messageDhcprequestHandle (requestBy 1001 7 1 1).env r.2 r.1).toOption.any fun x =>
        (x.2.sent.drop r.2.sent.length).any fun k =>
          k.message.wireType == some MsgType.nak) = true := by decide +kernel
  obtain ⟨⟨m, s₂⟩, hm, hq⟩ := (Option.any_eq_true _ _).mp hany
  obtain ⟨h54, hrun⟩ := Bool.and_eq_true_iff.mp hq
  obtain ⟨o54, ho54⟩ := Option.isSome_iff_exists.mp h54
  obtain ⟨⟨rv, s'⟩, hhandle, hsent⟩ := exists_ok_of_any hrun
  have hnak : SendsNak s₂ s' := by simpa [SendsNak] using hsent
  exact ⟨m, s₂, rv, s', hm, hhandle, hnak,
    (refused_request_changes_nothing _ s₂ m o54 ho54).2 rv s' hhandle hnak⟩

end DHCPServer
