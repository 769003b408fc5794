import DHCPServer.Database.Store
import DHCPServer.Packet.Codec
import DHCPServer.Server.Answers

namespace DHCPServer

/-- What a builder gives to `database_store_message` when it has sent the packet `k`: its message,
if the cache takes it. -/
def storedReply (env : Env) (s : Server) (k : Sent) : Option Message :=
  if (transCacheAddMessage env.now s.transCache k.message).1 then some k.message else none

/-- The messages a pass of `dhcp_server_serve` gives to `database_store_message`: the accepted one
before it is handled, and the reply. -/
def storedMessages (s : Server) (e : Event) : List Message :=
  ((handled s e).map Prod.fst).toList ++
    ((exchange s e).bind fun x => storedReply e.env x.2.1 x.2.2.2).toList

/-- A pass with the database files; `dbEnable` is `config.db_enable`. -/
def serveLogging (dbEnable : Bool) (x : Server × DatabaseFiles) (e : Event) :
    Except Fault (Server × DatabaseFiles) := do
  let s' ← serve x.1 e
  if dbEnable then
    return (s', databaseStoreAll x.2 ((storedMessages x.1 e).map (e.env.now.toNat, ·)))
  else return (s', x.2)

/-- The messages of a pass as its client sees them: the one the server has accepted, and what the
server has sent. -/
def exchanged (s : Server) (e : Event) : List Message :=
  ((handled s e).map Prod.fst).toList ++ ((exchange s e).map fun x => x.2.2.2.message).toList

/-- The messages of a run with their times. -/
def history : Server → List Event → List (Nat × Message)
  | _, [] => []
  | s, e :: es => (exchanged s e).map (e.env.now.toNat, ·) ++
      ((serve s e).toOption.map fun s' => history s' es).getD []

/-- The messages that carry a transaction id and a hardware address. -/
def ofClient (xid : UInt32) (mac : Mac) (messages : List (Nat × Message)) : List (Nat × Message) :=
  messages.filter fun r => decide (r.2.xid = xid ∧ r.2.mac = mac)

section Pass

variable {env : Env} {s s₂ s' : Server} {e : Event} {m : Message}

theorem Answers.cookie {reply : Message} (h : Answers env s m reply) : reply.cookie = m.cookie := by
  cases h with
  | offer | ack | inform | nak => rfl

/-- Whatever is sent in a pass is one of the answers to the message the pass handles. -/
theorem exchange_answers (hs : s.transCache.Sound) {k : Sent}
    (h : exchange s e = some (m, s₂, s', k)) :
    s₂.transCache.Stores m ∧ s₂.transCache.Sound ∧ m.cookie = magicCookie ∧
      ∃ reply, Answers e.env s₂ m reply ∧ (dhcpPacketBuild reply).1 = true ∧
        k.message = (dhcpPacketBuild reply).2 := by
  obtain ⟨hh, rv, hd, hk⟩ := exchange_eq_some.mp h
  have hacc := handled_accepts hs hh
  have hs₂ := hacc.adds.sound (update_cache_sound e.env hs)
  refine ⟨hacc.adds.stores, hs₂, hacc.cookie, ?_⟩
  rcases dispatch_sends hs₂ hd with ⟨hsent, -⟩ | ⟨reply, destination, hreply, hbuilt, -, hsent, -⟩
  · simp [answer, hsent] at hk
  · refine ⟨reply, hreply, hbuilt, ?_⟩
    have hpacket : ⟨destination, (dhcpPacketBuild reply).2⟩ = k := by
      simpa [answer, hsent] using hk
    rw [← hpacket]

/-- What is stored in a pass is what is exchanged in it: the reply to a stored message finds its
place in the cache. -/
theorem storedMessages_eq (hs : s.transCache.Sound) : storedMessages s e = exchanged s e := by
  unfold storedMessages exchanged
  congr 2
  cases hx : exchange s e with
  | none => rfl
  | some x =>
    obtain ⟨m, s₂, s', k⟩ := x
    obtain ⟨hst, hs₂, -, reply, hreply, -, hk⟩ := exchange_answers hs hx
    have hxid : k.message.xid = m.xid := by
      obtain ⟨p, hp⟩ := dhcpPacketBuild_message reply
      rw [hk, hp]
      exact hreply.xid
    obtain ⟨cache, hadd, -⟩ := TransactionCache.add_of_stores e.env.now hs₂ hst hxid
    simp [storedReply, hadd]

/-- Every message that is exchanged carries the magic cookie. -/
theorem exchanged_cookie (hs : s.transCache.Sound) {r : Message} (hr : r ∈ exchanged s e) :
    field32 r.packet 236 = magicCookie := by
  simp only [exchanged, List.mem_append, Option.mem_toList, Option.map_eq_some_iff] at hr
  rcases hr with ⟨⟨m, s₂⟩, hh, rfl⟩ | ⟨⟨m, s₂, s', k⟩, hx, rfl⟩
  · exact (handled_fromWire hh).cookie
  · obtain ⟨-, -, hcookie, reply, hreply, -, hk⟩ := exchange_answers hs hx
    have hreply : reply.cookie = magicCookie := hreply.cookie.trans hcookie
    rw [hk]
    exact (dhcpPacketBuild_header hreply).cookie.trans hreply

theorem serve_sound (hs : s.transCache.Sound) (h : serve s e = .ok s') : s'.transCache.Sound := by
  have hs₁ := update_cache_sound e.env hs
  rcases serve_cases hs h with ⟨-, -, hc⟩ | ⟨m, s₂, rv, hh, hd⟩
  · rwa [hc]
  · have hs₂ := (handled_accepts hs hh).adds.sound hs₁
    exact (dispatch_effect hs₂ hd).sound hs₂

end Pass

section Run

variable {s s' : Server} {files files' : DatabaseFiles} {events : List Event}

/-- A run with the database is a run of the server that stores all it exchanges. -/
theorem serveLogging_run (hs : s.transCache.Sound)
    (h : events.foldlM (serveLogging true) (s, files) = .ok (s', files')) :
    events.foldlM serve s = .ok s' ∧ files' = databaseStoreAll files (history s events) := by
  induction events generalizing s files with
  | nil =>
    cases h
    exact ⟨rfl, rfl⟩
  | cons e events ih =>
    rw [List.foldlM_cons] at h
    obtain ⟨⟨s₁, files₁⟩, hstep, hrest⟩ := seq_ok.mp h
    obtain ⟨s₂, hserve, hlog⟩ := seq_ok.mp hstep
    cases hlog
    obtain ⟨hrun, hfiles⟩ := ih (serve_sound hs hserve) hrest
    refine ⟨by rw [List.foldlM_cons]; exact seq_ok.mpr ⟨_, hserve, hrun⟩, ?_⟩
    rw [hfiles, history, hserve, storedMessages_eq hs, databaseStoreAll_append]
    rfl

/-- The history of a run that has one more pass. -/
theorem history_append (h : events.foldlM serve s = .ok s') (e : Event) :
    history s (events ++ [e]) = history s events ++ (exchanged s' e).map (e.env.now.toNat, ·) := by
  induction events generalizing s with
  | nil =>
    obtain rfl : s = s' := Except.ok.inj h
    cases hserve : serve s e <;> simp [history, hserve, Except.toOption]
  | cons e₀ events ih =>
    rw [List.foldlM_cons] at h
    obtain ⟨s₁, hserve, hrest⟩ := seq_ok.mp h
    rw [List.cons_append, history, history, hserve, List.append_assoc]
    simp only [Except.toOption, Option.map_some, Option.getD_some, ih hrest]

theorem history_cookie (hs : s.transCache.Sound) {r : Nat × Message} (hr : r ∈ history s events) :
    field32 r.2.packet 236 = magicCookie := by
  induction events generalizing s with
  | nil => cases hr
  | cons e events ih =>
    rw [history, List.mem_append, List.mem_map] at hr
    rcases hr with ⟨m, hm, rfl⟩ | hr
    · exact exchanged_cookie hs hm
    · cases hserve : serve s e with
      | error f => simp [hserve, Except.toOption] at hr
      | ok s₁ =>
        simp only [hserve, Except.toOption, Option.map_some, Option.getD_some] at hr
        exact ih (serve_sound hs hserve) hr

theorem history_time {r : Nat × Message} (hr : r ∈ history s events) : r.1 < 2 ^ 32 := by
  induction events generalizing s with
  | nil => cases hr
  | cons e events ih =>
    rw [history, List.mem_append, List.mem_map] at hr
    rcases hr with ⟨m, -, rfl⟩ | hr
    · exact e.env.now.toNat_lt
    · cases hserve : serve s e with
      | error f => simp [hserve, Except.toOption] at hr
      | ok s₁ =>
        simp only [hserve, Except.toOption, Option.map_some, Option.getD_some] at hr
        exact ih hr

end Run

end DHCPServer
