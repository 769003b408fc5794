import DHCPServer.Framework.Heap
import DHCPServer.Server.Answers

namespace DHCPServer

/-- What a message in the cache holds in place of its options: a handle. The list that it referred
to when the message was stored is kept beside it for statements; the code does not have it. -/
structure Ref where
  handle : Handle
  parsed : List DhcpOption

/-- The server with its option lists in memory. The messages of the cache are the copies that
`trans_add` makes of whole records, so that each shares its list with the message it was copied
from; `refs` has the handles of each slot, and the options of the messages in `server` are what
these handles reach. `buffer` is the list of the one message that packets are parsed into. -/
structure HandleServer where
  server : Server
  lists : Heap (List DhcpOption)
  buffer : Handle
  refs : List (List Ref)

/-- The handles of a slot when a message with the reference `r` may have been copied into it. -/
def slotRefs (r : Ref) (t : Transaction) (rs : List Ref) : List Ref :=
  (rs ++ [r]).take t.messages.length

/-- A slot as the server sees it through the handles of its messages. -/
def seenSlot (lists : Heap (List DhcpOption)) (t : Transaction) (rs : List Ref) : Transaction :=
  { t with messages :=
    List.zipWith (fun m r => m.setOptions ((lists.get r.handle).getD [])) t.messages rs }

/-- `message_dhcprequest_handle` gets as far as the comparison with the cached DISCOVER. -/
def comparesWithDiscover (s : Server) (m : Message) : Bool :=
  m.type == MsgType.request &&
    (m.option Tag.serverIdentifier).any fun o54 =>
      o54.ip == s.boundIp && m.ciaddr == 0 && m.yiaddr == 0

namespace HandleServer

variable (malloc : Heap (List DhcpOption) → Handle) (s : HandleServer)

/-- The reference of the message that `trans_cache_retrieve_message` finds. -/
def retrieveRef (xid type : UInt32) : Option Ref :=
  ((s.server.transCache.zip s.refs).find? fun x => x.1.xid == xid).bind fun x =>
    ((x.1.messages.zip x.2).find? fun y => y.1.type == type).map Prod.snd

/-- The timers; a cleared transaction has no messages and so no references any more. -/
def updateTimers (env : Env) : HandleServer :=
  let server := DHCPServer.updateTimers env s.server
  { s with
    server := server
    refs := List.zipWith (fun t rs => rs.take t.messages.length) server.transCache s.refs }

/-- What `dhcp_packet_parse` does to the memory: with the right cookie the list of the buffer is
destroyed and the options are parsed into a new one. -/
def parse (d : Datagram) : Except Fault HandleServer := do
  let (_, m) ← receive s.server.dhcpMsg d
  if m.cookie ≠ magicCookie then return s
  else
    let lists := s.lists.free s.buffer
    let buffer := malloc lists
    let lists := lists.put buffer m.dhcpOptions
    return { s with
      server := s.server.setTransCache (List.zipWith (seenSlot lists) s.server.transCache s.refs)
      lists := lists
      buffer := buffer }

/-- The access checks and `trans_cache_add_message` of the buffer, whose copy shares its list. -/
def accept (env : Env) (d : Datagram) : Except Fault (Option Message × HandleServer) := do
  let (accepted, server) ← DHCPServer.accept env s.server d
  return (accepted, { s with
    server := server
    refs := List.zipWith (slotRefs ⟨s.buffer, server.dhcpMsg.dhcpOptions⟩) server.transCache s.refs })

/-- The handlers. The comparison of a REQUEST with its DISCOVER follows the handle of the
DISCOVER, so it reads the options in `server`; a reply has a list of its own, which is never
destroyed. -/
def dispatch (env : Env) (m : Message) : Except Fault HandleServer := do
  if comparesWithDiscover s.server m &&
      (s.retrieveRef m.xid MsgType.discover).any fun r => (s.lists.get r.handle).isNone then
    throw .outOfBounds
  let (_, server) ← DHCPServer.dispatch env.ownLists s.server m
  match answer s.server server with
  | none => return { s with server := server }
  | some k =>
    let handle := malloc s.lists
    return { s with
      server := server
      lists := s.lists.put handle k.message.dhcpOptions
      refs := List.zipWith (slotRefs ⟨handle, k.message.dhcpOptions⟩) server.transCache s.refs }

/-- One pass of the loop of `dhcp_server_serve`. -/
def serve (e : Event) : Except Fault HandleServer := do
  let s := s.updateTimers e.env
  match e.datagram with
  | none => return s
  | some d =>
    let s ← s.parse malloc d
    let (accepted, s) ← s.accept e.env d
    match accepted with
    | none => return s
    | some m => s.dispatch malloc e.env m

end HandleServer

/-- The server when `dhcp_server_serve` has made its message buffer. -/
def HandleServer.start (malloc : Heap (List DhcpOption) → Handle) (s : Server) : HandleServer where
  server := s
  lists := (⟨[]⟩ : Heap (List DhcpOption)).put (malloc ⟨[]⟩) []
  buffer := malloc ⟨[]⟩
  refs := s.transCache.map fun _ => []

end DHCPServer
