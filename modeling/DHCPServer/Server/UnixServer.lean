import DHCPServer.Framework.JsonCompact
import DHCPServer.Security.DhcpSnoop
import DHCPServer.Server.Serve

namespace DHCPServer

/-- `BUFSIZ` -/
def bufsiz : Nat := 8192

/-- The text in a zeroed array of `BUFSIZ` bytes after `recv`. Nothing ends it when the array is
full. -/
def receivedText (bytes : CString) : Except Fault CString :=
  if bytes.length < bufsiz then .ok bytes else .error .outOfBounds

/-- The pieces of a text that `strtok` returns one after the other. -/
def strtok (delim : Char) (s : CString) : List CString := (s.splitOn delim).filter (· ≠ [])

/-- What a command returns to the UNIX server: `NULL`, or a text and whether the process has been
sent a `SIGINT`. A scan may still be going on. -/
inductive CommandResult where
  | null
  | scanning
  | reply (json : CString) (interrupts : Bool)
  deriving DecidableEq

/-- `command_func` -/
abbrev CommandFunc := Json → Server → Except Fault CommandResult

/-- `enum dhcp_snooper_status` in numbers. -/
def SnoopStatus.code : SnoopStatus → Int
  | disabled => -2 ^ 31
  | error => -1
  | noThreat => 0
  | potentialRogue => 1

section Commands

variable (cjson : JsonPrinter)

def commandEcho : CommandFunc := fun params _ => .ok (.reply (cjson.printUnformatted params) false)

def commandStop : CommandFunc := fun _ _ => .ok (.reply "[\"Stopping server\"]".toList true)

/-- `command_rogue_scan` of a server built with snooping or without, in the world the scan takes
place in. Without parameters the variable `mac` is read before anything is stored in it. -/
def commandRogueScan (snooping : Bool) (w : ScanWorld) : CommandFunc := fun params _ =>
  if !snooping then
    .ok (.reply "[\"DHCP snooping is not supported. Please read the manual.\"]".toList false)
  else
    match params.children with
    | [] => .error .outOfBounds
    | mac :: servers => do
      let ll ← servers.mapM fun e => (deref e.getStringValue).map ipv4AddressToUint32
      match ← dhcpSnooperPerformScan w mac.getStringValue ll with
      | none => return .scanning
      | some (status, res) =>
        if status.code < 0 then return .reply "[\"Error\"]".toList false
        else
          let json := Json.array ((strtok ',' res).map .string)
          return .reply (cjson.printUnformatted json) false

/-- The line `snprintf` puts into the buffer for a pool. -/
def poolStatusLine (p : AddressPool) : CString :=
  (p.name ++ " (".toList ++ uint32ToIpv4Address p.startAddress ++ " to ".toList ++
    uint32ToIpv4Address p.endAddress ++ "): ".toList ++ decimal p.availableAddresses.toNat ++
    " available leases".toList).take (bufsiz - 1)

def commandPoolStatus : CommandFunc := fun _ server =>
  let json := Json.array (server.allocator.addressPools.map fun p => .string (poolStatusLine p))
  .ok (.reply (cjson.printUnformatted json) false)

/-- `init_unix_commands` -/
def initUnixCommands (snooping : Bool) (w : ScanWorld) : List (CString × CommandFunc) :=
  [("echo".toList, commandEcho cjson),
    ("stop-server".toList, commandStop),
    ("rogue-scan".toList, commandRogueScan cjson snooping w),
    ("pool-status".toList, commandPoolStatus cjson)]

end Commands

/-- `handle_command` of the UNIX server. -/
def unixHandleCommand (commands : List (CString × CommandFunc)) (server : Server) (json : Json) :
    Except Fault CommandResult :=
  match (json.getObjectItem "command".toList).bind Json.getStringValue,
      json.getObjectItem "parameters".toList with
  | some command, some params =>
    match commands.find? (·.1 = command) with
    | some cmd => cmd.2 params server
    | none => .ok (.reply "[\"ERROR: Unknown command\"]".toList false)
  | _, _ => .ok .null

/-- What a request comes to: a scan that goes on, or bytes that are sent back. -/
inductive Answered where
  | scanning
  | sent (bytes : CString) (interrupts : Bool)
  deriving DecidableEq

/-- The part of `unix_server_handle` behind `error_respond`. As many bytes of the text are sent as
have been received; the tenth of them is the NUL that ends the text. -/
def errorRespond (bytes : Nat) : Except Fault Answered :=
  if bytes ≤ 10 then .ok (.sent ("[\"ERROR\"]".toList.take bytes) false) else .error .outOfBounds

/-- `unix_server_handle` when a client has connected and sent the request. -/
def unixServerHandle (cjson : JsonPrinter) (commands : List (CString × CommandFunc))
    (server : Server) (request : CString) : Except Fault Answered := do
  let buffer ← receivedText (request.take bufsiz)
  match cjson.parse buffer with
  | none => errorRespond buffer.length
  | some json =>
    match ← unixHandleCommand commands server json with
    | .null => errorRespond buffer.length
    | .scanning => return .scanning
    | .reply response interrupts => return .sent response interrupts

end DHCPServer
