import DHCPServer.Gui.Commands
import DHCPServer.Server.UnixServer

namespace DHCPServer

/-- The functions of the commands that the GUI handles itself. -/
inductive LocalCommand where
  | clear
  | help
  | config
  deriving DecidableEq

/-- `struct Command`; a command without a function is sent to the server. -/
structure GuiCommand where
  name : CString
  func : Option LocalCommand
  help : CString
  usage : CString

/-- `initialize_commands` -/
def initializeCommands : List GuiCommand :=
  [⟨"clear".toList, some .clear, "Deletes all output".toList, "clear".toList⟩,
    ⟨"help".toList, some .help, "Shows short help page for each command".toList,
      "help | ?".toList⟩,
    ⟨"?".toList, some .help, [], []⟩,
    ⟨"config".toList, some .config,
      "Set or get value of a config entry. For arrays use 0 base indexing".toList,
      "config get/set path.to.config.entry [new_value]".toList⟩,
    ⟨"echo".toList, none, "Echoes back what the user types in arguments".toList,
      "echo param1 param2 ...".toList⟩,
    ⟨"stop-server".toList, none, "Stops the running dhcp server".toList, "stop-server".toList⟩,
    ⟨"rogue-scan".toList, none, ("Perform a scan for potential dhcp rogue servers (running " ++
      "server must have support for scanning)").toList,
      "rogue-scan <mac-address> [legit-server-ip ...]".toList⟩,
    ⟨"pool-status".toList, none,
      "See the current number of available addresses in each pool".toList, "pool-status".toList⟩]

/-- The lines of `command_help`. -/
def commandHelp (commands : List GuiCommand) : List CString :=
  "Short description of each command".toList ::
    (commands.filter (·.name ≠ "?".toList)).flatMap fun entry =>
      ["  ".toList ++ entry.name ++ " : ".toList ++ entry.help,
        "    Usage: ".toList ++ entry.usage]

/-- What becomes of a request: there is no socket or no connection for it, it cannot be sent, or
bytes come back, none of them if the connection is closed or `recv` fails. -/
inductive Delivery where
  | noSocket
  | notConnected
  | notSent
  | received (bytes : CString)
  deriving DecidableEq

/-- The world of the command tab: what becomes of the request it sends, and for a `config` command
the file and what `command_config` meets with. -/
structure CommandWorld where
  deliver : CString → Except ActionError Delivery
  file : Option CString
  behind : CString
  writable : Bool
  errno : CString

def jsonError (error : CString) : Json := .array [.string error]

/-- The words that extraction from a stream gives. -/
def streamWords (s : CString) : List CString := (s.splitOnP isSpace).filter (· ≠ [])

/-- The object of `json_create_command`. -/
def commandObject (command : CString) (parameters : List CString) : Json :=
  .object [("command".toList, .string command),
    ("parameters".toList, .array (parameters.map .string))]

/-- `json_create_command`; the first word is taken without a check. -/
def jsonCreateCommand (cjson : JsonPrinter) (input : CString) : Except ActionError CString :=
  match streamWords input with
  | [] => .error (.fault .outOfBounds)
  | command :: parameters => .ok (cjson.printUnformatted (commandObject command parameters))

/-- `send_command`; the text that comes back may be no JSON. -/
def sendCommand (cjson : JsonPrinter) (w : CommandWorld) (input : CString) :
    Except ActionError (Option Json) := do
  let jsonString ← jsonCreateCommand cjson input
  match ← w.deliver jsonString with
  | .noSocket => return jsonError "Failed to create socket".toList
  | .notConnected => return jsonError "Connection failed".toList
  | .notSent => return jsonError "Send failed".toList
  | .received [] => return jsonError "Receive failed or connection closed".toList
  | .received bytes =>
    let buffer ← (receivedText (bytes.take bufsiz)).mapError .fault
    return cjson.parse buffer

/-- The lines of `print_response`. -/
def printResponse : Option Json → List CString
  | none => ["ERROR: Invalid JSON retuned".toList]
  | some (.array elements) => elements.map fun e =>
    (e.getStringValue).getD "ERROR: This value is not a string".toList
  | some _ => ["ERROR: returned value is not a JSON array".toList]

/-- `handle_command` of the GUI on a line: the lines of the output afterwards, and the configuration
file. -/
def handleCommand (cjson : JsonPrinter) (w : CommandWorld) (output : List CString)
    (input : CString) : Except ActionError (List CString × Option CString) :=
  let sub := input.takeWhile (· ≠ ' ')
  match initializeCommands.find? (·.name = sub) with
  | none => .ok (output ++ ["Unknown command: ".toList ++ input ++
      ". Use command 'help' to show all commands".toList], w.file)
  | some entry =>
    let output := output ++ ["$ ".toList ++ input]
    match entry.func with
    | some .clear => .ok ([], w.file)
    | some .help => .ok (output ++ commandHelp initializeCommands, w.file)
    | some .config => do
      let c : ConfigCommand := ⟨input, w.behind, w.writable, w.errno⟩
      let (lines, file) ← (commandConfigFile cjson.toJsonCodec c w.file).mapError .thrown
      return (output ++ lines, file)
    | none => do
      let json ← sendCommand cjson w input
      return (output ++ printResponse json, w.file)

end DHCPServer
