import DHCPServer.Server.Runs

namespace DHCPServer

/-- What a builder can have done with a finished reply, whatever the cache holds: nothing, or the
packet is built and sent and the cache asked to take it. -/
inductive Delivers (env : Env) (s : Server) (reply : Message) : Server → Prop
  | kept : Delivers env s reply s
  | sent (destination : UInt32) : (dhcpPacketBuild reply).1 = true →
      Delivers env s reply ((s.pushSent ⟨destination, (dhcpPacketBuild reply).2⟩).setTransCache
        (transCacheAddMessage env.now s.transCache (dhcpPacketBuild reply).2).2)

/-- One of the replies that satisfy `P` may have been delivered. -/
def DeliversSome (env : Env) (s s' : Server) (P : Message → Prop) : Prop :=
  s' = s ∨ ∃ reply, P reply ∧ Delivers env s reply s'

section Delivery

variable {env : Env} {s s' : Server} {m reply : Message} {P : Message → Prop}

theorem deliver_delivers (env : Env) (s : Server) (reply : Message) (destination : UInt32) :
    Delivers env s reply (deliver env s reply destination).2 := by
  unfold deliver
  cases hb : (dhcpPacketBuild reply).1 with
  | false =>
    simp only [hb, Bool.not_false, if_true]
    exact .kept
  | true =>
    simp only [hb, Bool.not_true, Bool.false_eq_true, if_false]
    split
    · exact .kept
    · exact .sent destination hb

theorem Delivers.allocator (h : Delivers env s reply s') : s'.allocator = s.allocator := by
  cases h <;> rfl

theorem Delivers.leases (h : Delivers env s reply s') : s'.leases = s.leases := by
  cases h <;> rfl

theorem Delivers.boundIp (h : Delivers env s reply s') : s'.boundIp = s.boundIp := by
  cases h <;> rfl

theorem Delivers.transCache (h : Delivers env s reply s') : s'.transCache = s.transCache ∨
    s'.transCache = (transCacheAddMessage env.now s.transCache (dhcpPacketBuild reply).2).2 := by
  cases h with
  | kept => exact .inl rfl
  | sent => exact .inr rfl

/-- A packet that has gone out is the one that is built from the reply. -/
theorem Delivers.answer {k : Sent} (h : Delivers env s reply s') (hk : answer s s' = some k) :
    k.message = (dhcpPacketBuild reply).2 ∧ (dhcpPacketBuild reply).1 = true := by
  cases h with
  | kept => simp [DHCPServer.answer] at hk
  | sent destination hb =>
    simp only [DHCPServer.answer, Server.setTransCache_sent, Server.pushSent_sent, List.drop_left,
      List.head?_cons, Option.some.injEq] at hk
    rw [← hk]
    exact ⟨rfl, hb⟩

theorem DeliversSome.allocator (h : DeliversSome env s s' P) : s'.allocator = s.allocator := by
  rcases h with rfl | ⟨reply, -, h⟩
  · rfl
  · exact h.allocator

theorem DeliversSome.leases (h : DeliversSome env s s' P) : s'.leases = s.leases := by
  rcases h with rfl | ⟨reply, -, h⟩
  · rfl
  · exact h.leases

theorem DeliversSome.boundIp (h : DeliversSome env s s' P) : s'.boundIp = s.boundIp := by
  rcases h with rfl | ⟨reply, -, h⟩
  · rfl
  · exact h.boundIp

theorem DeliversSome.answer {k : Sent} (h : DeliversSome env s s' P) (hk : answer s s' = some k) :
    ∃ reply, P reply ∧ k.message = (dhcpPacketBuild reply).2 ∧
      (dhcpPacketBuild reply).1 = true := by
  rcases h with rfl | ⟨reply, hP, h⟩
  · rw [answer_self] at hk
    cases hk
  · exact ⟨reply, hP, h.answer hk⟩

theorem sendAck_delivers {ok : Bool} {ack : Message}
    {collected : Except Fault (Option (List DhcpOption))}
    (h : sendAck env s ack collected = .ok (ok, s'))
    (hP : ∀ options, collected = .ok (some options) → P (ack.setOptions options)) :
    DeliversSome env s s' P := by
  obtain ⟨options, hopts, h⟩ := seq_ok.mp h
  cases options with
  | none =>
    cases h
    exact .inl rfl
  | some options =>
    have hs' : _ = s' := congrArg Prod.snd (Except.ok.inj h)
    rw [← hs']
    exact .inr ⟨_, hP options hopts, deliver_delivers _ _ _ _⟩

theorem offerBuild_delivers {ok : Bool} {a d : UInt32}
    (h : messageDhcpofferBuild env s m a d = .ok (ok, s'))
    (hP : ∀ options, offerOptions s.allocator m a = .ok (some options) →
      P ((replyTo m 0 a s.boundIp m.giaddr MsgType.offer).setOptions options)) :
    DeliversSome env s s' P := by
  obtain ⟨options, hopts, h⟩ := seq_ok.mp h
  cases options with
  | none =>
    cases h
    exact .inl rfl
  | some options =>
    have hs' : _ = s' := congrArg Prod.snd (Except.ok.inj h)
    rw [← hs']
    exact .inr ⟨_, hP options hopts, deliver_delivers _ _ _ _⟩

theorem nakBuild_delivers (env : Env) (s : Server) (m : Message)
    (hP : ∀ options, dhcpOptionBuildRequiredOptions [0] s.allocator.defaultOptions
      s.allocator.defaultOptions [] [0] [54, 0] 6 = some options →
      P ((replyTo m 0 0 0 m.giaddr MsgType.nak).setOptions options)) :
    DeliversSome env s (messageDhcpnakBuild env s m).2 P := by
  unfold messageDhcpnakBuild
  dsimp only
  split
  · exact .inl rfl
  · rename_i options ho
    exact .inr ⟨_, hP options ho, deliver_delivers _ _ _ _⟩

end Delivery

end DHCPServer
