import DHCPServer.Lease.Store
import DHCPServer.Packet.Receive
import DHCPServer.Security.Acl

namespace DHCPServer

/-- A packet handed to `sendto`, with the address it goes to. -/
structure Sent where
  destination : UInt32
  message : Message
  deriving DecidableEq

/-- What the world does during one pass of the server loop: the reading of the clock, whether packets
can be sent, whether `lease_add` finds the array of its file and can write it, and how
`lease_remove` gets on, in the handler of a message and in the expiry check for the file of a pool
and an address. `memory` is what is read as the option list of a received message in the cache:
the copy shares its list with the receive buffer, and every packet that is parsed destroys the list
of the one before. `HandleServer` has these lists behind handles, and its runs are runs of this
model. `xidUsedInScan` is that of `dhcp_snoop.c`, in a server built with it. -/
structure Env where
  now : UInt32
  sends : Bool
  writes : Bool
  rewrite : Rewrite
  sweeps : CString → UInt32 → Rewrite
  memory : Message → List DhcpOption
  xidUsedInScan : Option UInt32

/-- Everything goes well, option lists are read as they were stored, and there is no snooping. -/
def Env.fair (now : UInt32) : Env where
  now := now
  sends := true
  writes := true
  rewrite := .done
  sweeps := fun _ _ => .done
  memory := Message.dhcpOptions
  xidUsedInScan := none

/-- The same world, in which option lists are read as they were stored. -/
def Env.ownLists (env : Env) : Env := { env with memory := Message.dhcpOptions }

/-- A renewal comes to write the extended record, and can: it is left at once when the file cannot be
opened, and a file that has been cut and not written has no array to put the record in. -/
def Env.extends (env : Env) : Bool :=
  env.writes && (env.rewrite == .done || env.rewrite == .notTruncated)

theorem Env.extends_iff {env : Env} : env.extends = true ↔
    env.writes = true ∧ env.rewrite ≠ .notOpened ∧ env.rewrite ≠ .notWritten := by
  unfold Env.extends
  cases env.rewrite <;> simp

/-- The cache as the handler of a REQUEST reads it. -/
def Env.seen (env : Env) (cache : TransactionCache) : TransactionCache :=
  cache.map fun t => { t with messages := t.messages.map fun m => m.setOptions (env.memory m) }

/-- What a lookup finds does not depend on the option lists. -/
theorem seen_retrieve (env : Env) (cache : TransactionCache) (xid type : UInt32) :
    transCacheRetrieveMessage (env.seen cache) xid type =
      (transCacheRetrieveMessage cache xid type).map fun m => m.setOptions (env.memory m) := by
  have hslot : transCacheRetrieveTransaction (env.seen cache) xid =
      (transCacheRetrieveTransaction cache xid).map fun t =>
        { t with messages := t.messages.map fun m => m.setOptions (env.memory m) } :=
    List.find?_map
  unfold transCacheRetrieveMessage
  rw [hslot]
  cases transCacheRetrieveTransaction cache xid with
  | none => rfl
  | some t => exact List.find?_map

/-- `dhcp_server_t`, with the lease files it works on, its receive buffer and the packets it has
sent. -/
structure Server where
  boundIp : UInt32
  broadcastAddr : UInt32
  allocator : AddressAllocator
  transCache : TransactionCache
  leaseExpirationCheck : Timer
  acl : Acl
  dacl : Acl
  leases : LeaseStore
  dhcpMsg : Message
  sent : List Sent

namespace Server

variable (s : Server) (a : AddressAllocator) (c : TransactionCache) (l : LeaseStore) (d : Acl)
  (t : Timer) (m : Message) (p : Sent)

def setAllocator : Server := { s with allocator := a }
def setTransCache : Server := { s with transCache := c }
def setLeases : Server := { s with leases := l }
def setDacl : Server := { s with dacl := d }
def setCheck : Server := { s with leaseExpirationCheck := t }
def setDhcpMsg : Server := { s with dhcpMsg := m }
def pushSent : Server := { s with sent := s.sent ++ [p] }

@[simp] theorem setAllocator_allocator : (s.setAllocator a).allocator = a := rfl
@[simp] theorem setAllocator_transCache : (s.setAllocator a).transCache = s.transCache := rfl
@[simp] theorem setAllocator_leases : (s.setAllocator a).leases = s.leases := rfl
@[simp] theorem setAllocator_sent : (s.setAllocator a).sent = s.sent := rfl
@[simp] theorem setAllocator_boundIp : (s.setAllocator a).boundIp = s.boundIp := rfl
@[simp] theorem setTransCache_allocator : (s.setTransCache c).allocator = s.allocator := rfl
@[simp] theorem setTransCache_transCache : (s.setTransCache c).transCache = c := rfl
@[simp] theorem setTransCache_leases : (s.setTransCache c).leases = s.leases := rfl
@[simp] theorem setTransCache_sent : (s.setTransCache c).sent = s.sent := rfl
@[simp] theorem setTransCache_boundIp : (s.setTransCache c).boundIp = s.boundIp := rfl
@[simp] theorem setLeases_allocator : (s.setLeases l).allocator = s.allocator := rfl
@[simp] theorem setLeases_transCache : (s.setLeases l).transCache = s.transCache := rfl
@[simp] theorem setLeases_leases : (s.setLeases l).leases = l := rfl
@[simp] theorem setLeases_sent : (s.setLeases l).sent = s.sent := rfl
@[simp] theorem setLeases_boundIp : (s.setLeases l).boundIp = s.boundIp := rfl
@[simp] theorem setDacl_allocator : (s.setDacl d).allocator = s.allocator := rfl
@[simp] theorem setDacl_transCache : (s.setDacl d).transCache = s.transCache := rfl
@[simp] theorem setDacl_leases : (s.setDacl d).leases = s.leases := rfl
@[simp] theorem setDacl_sent : (s.setDacl d).sent = s.sent := rfl
@[simp] theorem setDacl_boundIp : (s.setDacl d).boundIp = s.boundIp := rfl
@[simp] theorem setCheck_allocator : (s.setCheck t).allocator = s.allocator := rfl
@[simp] theorem setCheck_transCache : (s.setCheck t).transCache = s.transCache := rfl
@[simp] theorem setCheck_leases : (s.setCheck t).leases = s.leases := rfl
@[simp] theorem setCheck_sent : (s.setCheck t).sent = s.sent := rfl
@[simp] theorem setCheck_boundIp : (s.setCheck t).boundIp = s.boundIp := rfl
@[simp] theorem setDhcpMsg_allocator : (s.setDhcpMsg m).allocator = s.allocator := rfl
@[simp] theorem setDhcpMsg_transCache : (s.setDhcpMsg m).transCache = s.transCache := rfl
@[simp] theorem setDhcpMsg_leases : (s.setDhcpMsg m).leases = s.leases := rfl
@[simp] theorem setDhcpMsg_sent : (s.setDhcpMsg m).sent = s.sent := rfl
@[simp] theorem setDhcpMsg_boundIp : (s.setDhcpMsg m).boundIp = s.boundIp := rfl
@[simp] theorem pushSent_allocator : (s.pushSent p).allocator = s.allocator := rfl
@[simp] theorem pushSent_transCache : (s.pushSent p).transCache = s.transCache := rfl
@[simp] theorem pushSent_leases : (s.pushSent p).leases = s.leases := rfl
@[simp] theorem pushSent_sent : (s.pushSent p).sent = s.sent ++ [p] := rfl
@[simp] theorem pushSent_boundIp : (s.pushSent p).boundIp = s.boundIp := rfl

end Server

/-- The header that every reply takes over from the message it answers. -/
def replyTo (m : Message) (ciaddr yiaddr siaddr giaddr type : UInt32) : Message :=
  { dhcpMessageNew with
    opcode := bootReply
    htype := m.htype
    hlen := m.hlen
    hops := 0
    xid := m.xid
    secs := 0
    ciaddr := ciaddr
    yiaddr := yiaddr
    siaddr := siaddr
    flags := m.flags
    giaddr := giaddr
    cookie := m.cookie
    type := type
    chaddr := m.chaddr }

section Reply

variable (m : Message) (ciaddr yiaddr siaddr giaddr type : UInt32)

@[simp] theorem replyTo_xid : (replyTo m ciaddr yiaddr siaddr giaddr type).xid = m.xid := rfl
@[simp] theorem replyTo_yiaddr : (replyTo m ciaddr yiaddr siaddr giaddr type).yiaddr = yiaddr := rfl
@[simp] theorem replyTo_type : (replyTo m ciaddr yiaddr siaddr giaddr type).type = type := rfl
@[simp] theorem replyTo_chaddr :
    (replyTo m ciaddr yiaddr siaddr giaddr type).chaddr = m.chaddr := rfl
@[simp] theorem replyTo_cookie :
    (replyTo m ciaddr yiaddr siaddr giaddr type).cookie = m.cookie := rfl

end Reply

/-- The end that all functions which build a reply share: `dhcp_packet_build`, the `sendto` of
the message's own send function, `trans_cache_add_message`. `true` stands for the return value
0. A reply that is sent and cannot be cached stays sent. -/
def deliver (env : Env) (s : Server) (reply : Message) (destination : UInt32) : Bool × Server :=
  let (built, reply) := dhcpPacketBuild reply
  if !built then (false, s)
  else if !env.sends then (false, s)
  else
    let s := s.pushSent ⟨destination, reply⟩
    let (stored, cache) := transCacheAddMessage env.now s.transCache reply
    (stored, s.setTransCache cache)

/-- What `deliver` can have done: nothing, or sent the reply, which is then cached or not. -/
theorem deliver_cases (env : Env) (s : Server) (reply : Message) (destination : UInt32) :
    (deliver env s reply destination = (false, s)) ∨
    ∃ p stored cache,
      transCacheAddMessage env.now s.transCache (reply.setPacket p) = (stored, cache) ∧
      deliver env s reply destination =
        (stored, (s.pushSent ⟨destination, reply.setPacket p⟩).setTransCache cache) := by
  obtain ⟨p, hp⟩ := dhcpPacketBuild_message reply
  unfold deliver
  cases hb : (dhcpPacketBuild reply).1 with
  | false => exact .inl (by simp [hb])
  | true =>
    cases hs : env.sends with
    | false => exact .inl (by simp [hb])
    | true =>
      refine .inr ⟨p, _, _, rfl, ?_⟩
      simp only [hb, hp, Bool.not_true, Bool.false_eq_true, if_false]
      rfl

end DHCPServer
