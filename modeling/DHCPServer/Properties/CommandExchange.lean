import DHCPServer.Framework.Fault
import DHCPServer.Gui.TabCommand
import DHCPServer.Server.Startup

namespace DHCPServer

/-- The commands that the GUI leaves to the server. -/
def serverCommands : List CString :=
  (initializeCommands.filter (·.func.isNone)).map (·.name)

/-- The server answers a command with a text that shows as the lines. -/
inductive AnswersCommand (cjson : JsonPrinter) (snooping : Bool) (w : ScanWorld) (s : Server) :
    CString → List CString → CString → List CString → Prop
  | echo (params : List CString) : AnswersCommand cjson snooping w s "echo".toList params
      (cjson.printUnformatted (.array (params.map .string))) params
  | stop (params : List CString) : AnswersCommand cjson snooping w s "stop-server".toList params
      "[\"Stopping server\"]".toList ["Stopping server".toList]
  | unsupported (params : List CString) (h : snooping = false) :
      AnswersCommand cjson snooping w s "rogue-scan".toList params
        "[\"DHCP snooping is not supported. Please read the manual.\"]".toList
        ["DHCP snooping is not supported. Please read the manual.".toList]
  | scanFails (mac : CString) (servers : List CString) (status : SnoopStatus) (res : CString)
      (h : snooping = true) (hstatus : status.code < 0)
      (hscan : dhcpSnooperPerformScan w (some mac) (servers.map ipv4AddressToUint32) =
        .ok (some (status, res))) :
      AnswersCommand cjson snooping w s "rogue-scan".toList (mac :: servers)
        "[\"Error\"]".toList ["Error".toList]
  | scan (mac : CString) (servers : List CString) (status : SnoopStatus) (res : CString)
      (h : snooping = true) (hstatus : 0 ≤ status.code)
      (hscan : dhcpSnooperPerformScan w (some mac) (servers.map ipv4AddressToUint32) =
        .ok (some (status, res))) :
      AnswersCommand cjson snooping w s "rogue-scan".toList (mac :: servers)
        (cjson.printUnformatted (.array ((strtok ',' res).map .string))) (strtok ',' res)
  | poolStatus (params : List CString) : AnswersCommand cjson snooping w s "pool-status".toList
      params (cjson.printUnformatted
        (.array ((s.allocator.addressPools.map poolStatusLine).map .string)))
      (s.allocator.addressPools.map poolStatusLine)

/-- The values that are printed for a command: the request, and the lines of an answer. -/
inductive Exchanged (cjson : JsonPrinter) (snooping : Bool) (w : ScanWorld) (s : Server)
    (command : CString) (params : List CString) : Json → Prop where
  | request : Exchanged cjson snooping w s command params (commandObject command params)
  | answer {text : CString} {lines : List CString}
      (h : AnswersCommand cjson snooping w s command params text lines) :
      Exchanged cjson snooping w s command params (.array (lines.map .string))

/-- A server that is connected, and sends what it answers a request with. -/
def connected (cjson : JsonPrinter) (commands : List (CString × CommandFunc)) (s : Server)
    (request : CString) : Except ActionError Delivery :=
  match unixServerHandle cjson commands s request with
  | .error f => .error (.fault f)
  | .ok .scanning => .error .waits
  | .ok (.sent bytes _) => .ok (.received bytes)

section Words

variable {input : CString}

/-- A first word that a blank ends, or the end of the line, is the first word of the stream. -/
theorem streamWords_first (hne : input.takeWhile (· ≠ ' ') ≠ [])
    (hplain : ∀ c ∈ input.takeWhile (· ≠ ' '), isSpace c = false) :
    streamWords input = input.takeWhile (· ≠ ' ') ::
      streamWords (input.dropWhile (· ≠ ' ')) := by
  have hsplit : input.takeWhile (· ≠ ' ') ++ input.dropWhile (· ≠ ' ') = input :=
    List.takeWhile_append_dropWhile
  cases hrest : input.dropWhile (· ≠ ' ') with
  | nil =>
    rw [hrest, List.append_nil] at hsplit
    rw [hsplit] at hne hplain ⊢
    rw [streamWords, List.splitOnP_eq_singleton hplain]
    simp [streamWords, hne]
  | cons c rest =>
    obtain rfl : c = ' ' := by
      have hc := List.head?_dropWhile_not (· ≠ ' ') input
      rw [hrest] at hc
      simpa using hc
    rw [hrest] at hsplit
    have hall : streamWords input = streamWords (input.takeWhile (· ≠ ' ') ++ ' ' :: rest) := by
      rw [hsplit]
    have hbehind : (([] : CString) ++ ' ' :: rest).splitOnP isSpace =
        [] :: rest.splitOnP isSpace :=
      List.splitOnP_append_cons_of_forall_mem (by simp) ' ' rfl rest
    rw [hall, streamWords, List.splitOnP_append_cons_of_forall_mem hplain ' ' rfl,
      List.filter_cons_of_pos (by simpa using hne)]
    rw [List.nil_append] at hbehind
    rw [streamWords, hbehind]
    simp

theorem serverCommands_eq : serverCommands =
    ["echo".toList, "stop-server".toList, "rogue-scan".toList, "pool-status".toList] := by
  decide

/-- A line that starts with a command of the server is split after the command. -/
theorem streamWords_command (h : input.takeWhile (· ≠ ' ') ∈ serverCommands) :
    streamWords input = input.takeWhile (· ≠ ' ') ::
      streamWords (input.dropWhile (· ≠ ' ')) := by
  have hall : ∀ name ∈ serverCommands, name ≠ [] ∧ name.all (fun c => !isSpace c) = true := by
    decide
  obtain ⟨hne, hplain⟩ := hall _ h
  apply streamWords_first hne
  simpa using hplain

/-- The GUI has no function of its own for a command of the server. -/
theorem find_serverCommand {sub : CString} (h : sub ∈ serverCommands) :
    ∃ entry, initializeCommands.find? (·.name = sub) = some entry ∧ entry.func = none := by
  rw [serverCommands_eq] at h
  simp only [List.mem_cons, List.not_mem_nil, or_false] at h
  rcases h with rfl | rfl | rfl | rfl <;> exact ⟨_, rfl, rfl⟩

end Words

section Exchange

variable {cjson : JsonPrinter} {snooping : Bool} {w : ScanWorld} {s : Server} {command : CString}
  {params : List CString} {text : CString} {lines : List CString}

theorem receivedText_ok {bytes buffer : CString} :
    receivedText (bytes.take bufsiz) = .ok buffer ↔ bytes.length < bufsiz ∧ buffer = bytes := by
  unfold receivedText
  rw [List.length_take]
  split
  · rename_i h
    rw [min_lt_iff] at h
    have hlt : bytes.length < bufsiz := h.resolve_left (lt_irrefl _)
    rw [List.take_of_length_le hlt.le, Except.ok.injEq, eq_comm]
    exact ⟨fun h => ⟨hlt, h⟩, fun h => h.2⟩
  · rename_i h
    constructor
    · intro hok
      cases hok
    · intro hok
      exact absurd (min_lt_of_right_lt hok.1) h

/-- The texts of an answer show as its lines. -/
theorem AnswersCommand.parse {printed : Json → Prop} (hc : cjson.LawfulOn printed)
    (hprinted : printed (.array (lines.map .string))) (h : AnswersCommand cjson snooping w s command params text lines) :
    cjson.parse text = some (.array (lines.map .string)) := by
  cases h with
  | echo | scan | poolStatus => exact hc.unformatted _ hprinted
  | stop => exact hc.plain "Stopping server".toList (by decide)
  | unsupported =>
    exact hc.plain "DHCP snooping is not supported. Please read the manual.".toList (by decide)
  | scanFails => exact hc.plain "Error".toList (by decide)

theorem printResponse_strings (lines : List CString) :
    printResponse (some (.array (lines.map .string))) = lines := by
  simp [printResponse, Json.getStringValue, Function.comp_def]

/-- A scan reads its addresses from the words behind the first one. -/
theorem whitelist_strings (servers : List CString) :
    (servers.map Json.string).mapM (fun e =>
      (deref e.getStringValue).map ipv4AddressToUint32 : Json → Except Fault UInt32) =
      .ok (servers.map ipv4AddressToUint32) := by
  induction servers with
  | nil => rfl
  | cons server servers ih =>
    rw [List.map_cons, List.mapM_cons, ih]
    rfl

/-- What the server makes of the request for a command. -/
theorem unixHandleCommand_request (command : CString) (params : List CString) :
    unixHandleCommand (initUnixCommands cjson snooping w) s (commandObject command params) =
      match (initUnixCommands cjson snooping w).find? (·.1 = command) with
      | some cmd => cmd.2 (.array (params.map .string)) s
      | none => .ok (.reply "[\"ERROR: Unknown command\"]".toList false) := rfl

theorem answers_echo : AnswersCommand cjson snooping w s "echo".toList params text lines ↔
    text = cjson.printUnformatted (.array (params.map .string)) ∧ lines = params := by
  constructor
  · intro h
    generalize hcommand : "echo".toList = command at h
    cases h with
    | echo => exact ⟨rfl, rfl⟩
    | stop | unsupported | scanFails | scan | poolStatus => exact absurd hcommand (by decide)
  · intro h
    obtain ⟨rfl, rfl⟩ := h
    exact .echo _

theorem answers_stop : AnswersCommand cjson snooping w s "stop-server".toList params text lines ↔
    text = "[\"Stopping server\"]".toList ∧ lines = ["Stopping server".toList] := by
  constructor
  · intro h
    generalize hcommand : "stop-server".toList = command at h
    cases h with
    | stop => exact ⟨rfl, rfl⟩
    | echo | unsupported | scanFails | scan | poolStatus => exact absurd hcommand (by decide)
  · intro h
    obtain ⟨rfl, rfl⟩ := h
    exact .stop _

theorem answers_poolStatus :
    AnswersCommand cjson snooping w s "pool-status".toList params text lines ↔
    text = cjson.printUnformatted
      (.array ((s.allocator.addressPools.map poolStatusLine).map .string)) ∧
    lines = s.allocator.addressPools.map poolStatusLine := by
  constructor
  · intro h
    generalize hcommand : "pool-status".toList = command at h
    cases h with
    | poolStatus => exact ⟨rfl, rfl⟩
    | echo | stop | unsupported | scanFails | scan => exact absurd hcommand (by decide)
  · intro h
    obtain ⟨rfl, rfl⟩ := h
    exact .poolStatus _

/-- `rogue-scan` replies with what the scan comes back with. -/
theorem commandRogueScan_reply : (∃ interrupts,
    commandRogueScan cjson snooping w (.array (params.map .string)) s =
      .ok (.reply text interrupts)) ↔
    ∃ lines, AnswersCommand cjson snooping w s "rogue-scan".toList params text lines := by
  cases hsnoop : snooping with
  | false =>
    constructor
    · intro h
      obtain ⟨interrupts, h⟩ := h
      cases h
      exact ⟨_, .unsupported _ rfl⟩
    · intro h
      obtain ⟨lines, h⟩ := h
      generalize hcommand : "rogue-scan".toList = command at h
      cases h with
      | unsupported => exact ⟨false, rfl⟩
      | scanFails _ _ _ _ h | scan _ _ _ _ h => cases h
      | echo | stop | poolStatus => exact absurd hcommand (by decide)
  | true =>
    cases params with
    | nil =>
      constructor
      · intro h
        obtain ⟨interrupts, h⟩ := h
        cases h
      · intro h
        obtain ⟨lines, h⟩ := h
        generalize hcommand : "rogue-scan".toList = command at h
        cases h with
        | unsupported _ h => cases h
        | echo | stop | poolStatus => exact absurd hcommand (by decide)
    | cons mac servers =>
      unfold commandRogueScan
      simp only [List.map_cons, Json.children, whitelist_strings]
      constructor
      · intro h
        obtain ⟨interrupts, h⟩ := h
        obtain ⟨ll, hll, h⟩ := seq_ok.mp h
        cases hll
        obtain ⟨result, hscan, h⟩ := seq_ok.mp h
        cases result with
        | none => cases h
        | some result =>
          obtain ⟨status, res⟩ := result
          by_cases hneg : status.code < 0
          · simp only [hneg, if_true] at h
            cases h
            exact ⟨_, .scanFails mac servers status res rfl hneg hscan⟩
          · simp only [hneg, if_false] at h
            cases h
            exact ⟨_, .scan mac servers status res rfl (not_lt.mp hneg) hscan⟩
      · intro h
        obtain ⟨lines, h⟩ := h
        generalize hcommand : "rogue-scan".toList = command at h
        cases h with
        | unsupported _ h => cases h
        | scanFails _ _ status res _ hneg hscan =>
          refine ⟨false, seq_ok.mpr ⟨_, rfl, seq_ok.mpr ⟨_, hscan, ?_⟩⟩⟩
          simp only [hneg, if_true]
          rfl
        | scan _ _ status res _ hpos hscan =>
          refine ⟨false, seq_ok.mpr ⟨_, rfl, seq_ok.mpr ⟨_, hscan, ?_⟩⟩⟩
          simp only [not_lt.mpr hpos, if_false]
          rfl
        | echo | stop | poolStatus => exact absurd hcommand (by decide)

/-- The commands of the server reply with the texts that answer them. -/
theorem unixHandleCommand_reply (h : command ∈ serverCommands) :
    (∃ interrupts, unixHandleCommand (initUnixCommands cjson snooping w) s
      (commandObject command params) = .ok (.reply text interrupts)) ↔
      ∃ lines, AnswersCommand cjson snooping w s command params text lines := by
  rw [serverCommands_eq] at h
  simp only [List.mem_cons, List.not_mem_nil, or_false] at h
  rw [unixHandleCommand_request]
  rcases h with rfl | rfl | rfl | rfl
  · simp only [answers_echo, exists_and_left, exists_eq, and_true]
    constructor
    · intro h
      obtain ⟨interrupts, h⟩ := h
      cases h
      rfl
    · rintro rfl
      exact ⟨false, rfl⟩
  · simp only [answers_stop, exists_and_left, exists_eq, and_true]
    constructor
    · intro h
      obtain ⟨interrupts, h⟩ := h
      cases h
      rfl
    · rintro rfl
      exact ⟨true, rfl⟩
  · exact commandRogueScan_reply
  · simp only [answers_poolStatus, exists_and_left, exists_eq, and_true]
    have hreply : (initUnixCommands cjson snooping w).find? (·.1 = "pool-status".toList) =
        some ("pool-status".toList, commandPoolStatus cjson) := rfl
    simp only [hreply, commandPoolStatus, List.map_map, Function.comp_def]
    constructor
    · intro h
      obtain ⟨interrupts, h⟩ := h
      cases h
      rfl
    · rintro rfl
      exact ⟨false, rfl⟩

/-- No command of the server comes back with `NULL`. -/
theorem unixHandleCommand_ne_null (h : command ∈ serverCommands) :
    unixHandleCommand (initUnixCommands cjson snooping w) s (commandObject command params) ≠
      .ok .null := by
  rw [serverCommands_eq] at h
  simp only [List.mem_cons, List.not_mem_nil, or_false] at h
  rw [unixHandleCommand_request]
  intro hnull
  rcases h with rfl | rfl | rfl | rfl
  · cases hnull
  · cases hnull
  · have hscan : commandRogueScan cjson snooping w (.array (params.map .string)) s =
        .ok .null := hnull
    unfold commandRogueScan at hscan
    split at hscan
    · cases hscan
    split at hscan
    · cases hscan
    obtain ⟨ll, -, hscan⟩ := seq_ok.mp hscan
    obtain ⟨result, -, hscan⟩ := seq_ok.mp hscan
    split at hscan
    · cases hscan
    split at hscan <;> cases hscan
  · cases hnull

/-- A request that is received as a whole is replied to. -/
theorem unixServerHandle_sent {printed : Json → Prop} (hc : cjson.LawfulOn printed)
    (hprinted : printed (commandObject command params)) (h : command ∈ serverCommands)
    {interrupts : Bool} :
    unixServerHandle cjson (initUnixCommands cjson snooping w) s
        (cjson.printUnformatted (commandObject command params)) = .ok (.sent text interrupts) ↔
      (cjson.printUnformatted (commandObject command params)).length < bufsiz ∧
        unixHandleCommand (initUnixCommands cjson snooping w) s (commandObject command params) =
          .ok (.reply text interrupts) := by
  have hnull := @unixHandleCommand_ne_null cjson snooping w s command params h
  unfold unixServerHandle
  rw [seq_ok]
  simp only [receivedText_ok, and_assoc, exists_and_left, exists_eq_left, hc.unformatted _ hprinted]
  apply and_congr_right
  intro _
  cases hrun : unixHandleCommand (initUnixCommands cjson snooping w) s
      (commandObject command params) with
  | error f =>
    constructor <;> intro hok <;> cases hok
  | ok result =>
    cases result with
    | null => exact absurd hrun hnull
    | scanning => constructor <;> intro hok <;> cases hok
    | reply json i =>
      constructor <;> intro hok <;> cases hok <;> rfl

theorem connected_received {commands : List (CString × CommandFunc)} {request : CString} :
    connected cjson commands s request = .ok (.received text) ↔
      ∃ interrupts, unixServerHandle cjson commands s request = .ok (.sent text interrupts) := by
  unfold connected
  split
  · rename_i heq
    simp [heq]
  · rename_i heq
    simp [heq]
  · rename_i heq
    simp [heq]

/-- A connected server gives back bytes or nothing. -/
theorem connected_ok {commands : List (CString × CommandFunc)} {request : CString}
    {delivery : Delivery} (h : connected cjson commands s request = .ok delivery) :
    ∃ text, delivery = .received text := by
  unfold connected at h
  split at h
  · cases h
  · cases h
  · cases h
    exact ⟨_, rfl⟩

/-- What is received is parsed if it leaves room for the NUL behind it. -/
theorem sendCommand_received {world : CommandWorld} {input request : CString} {json : Option Json}
    (hrequest : jsonCreateCommand cjson input = .ok request)
    (hdeliver : world.deliver request = .ok (.received text)) (hne : text ≠ []) :
    sendCommand cjson world input = .ok json ↔ text.length < bufsiz ∧ json = cjson.parse text := by
  unfold sendCommand
  rw [hrequest, seq_ok]
  simp only [Except.ok.injEq, exists_eq_left']
  rw [seq_ok, hdeliver]
  simp only [Except.ok.injEq, exists_eq_left']
  obtain ⟨c, text, rfl⟩ := List.exists_cons_of_ne_nil hne
  rw [seq_ok]
  simp only [mapError_ok, receivedText_ok, and_assoc, exists_and_left, exists_eq_left]
  apply and_congr_right
  intro _
  constructor <;> intro hok <;> cases hok <;> rfl

/-- A line that starts with a command of the server shows the line and what the server answers the
words behind the command with, if the request and the answer are shorter than the buffers. Else
memory behind a buffer is read, or the scan fails or goes on. -/
theorem typed_command_exact {world : CommandWorld} {input : CString}
    {output out : List CString} {file : Option CString}
    (hc : cjson.LawfulOn (Exchanged cjson snooping w s (input.takeWhile (· ≠ ' '))
      (streamWords (input.dropWhile (· ≠ ' ')))))
    (hserver : world.deliver = connected cjson (initUnixCommands cjson snooping w) s)
    (h : input.takeWhile (· ≠ ' ') ∈ serverCommands) :
    handleCommand cjson world output input = .ok (out, file) ↔
      (cjson.printUnformatted (commandObject (input.takeWhile (· ≠ ' '))
        (streamWords (input.dropWhile (· ≠ ' '))))).length < bufsiz ∧
      ∃ text lines, AnswersCommand cjson snooping w s (input.takeWhile (· ≠ ' '))
          (streamWords (input.dropWhile (· ≠ ' '))) text lines ∧
        text.length < bufsiz ∧ out = output ++ ("$ ".toList ++ input) :: lines ∧
        file = world.file := by
  obtain ⟨entry, hentry, hfunc⟩ := find_serverCommand h
  have hrequest : jsonCreateCommand cjson input = .ok (cjson.printUnformatted
      (commandObject (input.takeWhile (· ≠ ' ')) (streamWords (input.dropWhile (· ≠ ' '))))) := by
    rw [jsonCreateCommand, streamWords_command h]
  have hshown : ∀ lines : List CString, output ++ ["$ ".toList ++ input] ++ lines =
      output ++ ("$ ".toList ++ input) :: lines := by simp
  have hempty : ∀ {text lines}, AnswersCommand cjson snooping w s (input.takeWhile (· ≠ ' '))
      (streamWords (input.dropWhile (· ≠ ' '))) text lines → text ≠ [] := by
    rintro text lines hlines rfl
    have hparse := hlines.parse hc (.answer hlines)
    rw [hc.empty] at hparse
    cases hparse
  unfold handleCommand
  simp only [hentry, hfunc]
  rw [seq_ok]
  constructor
  · intro hrun
    obtain ⟨json, hsend, hout⟩ := hrun
    obtain ⟨delivery, hdeliver⟩ : ∃ delivery, world.deliver (cjson.printUnformatted
        (commandObject (input.takeWhile (· ≠ ' ')) (streamWords (input.dropWhile (· ≠ ' '))))) =
        .ok delivery := by
      obtain ⟨request, hr, hrest⟩ := seq_ok.mp hsend
      obtain ⟨delivery, hdeliver, -⟩ := seq_ok.mp hrest
      obtain rfl := Except.ok.inj (hrequest.symm.trans hr)
      exact ⟨delivery, hdeliver⟩
    rw [hserver] at hdeliver
    obtain ⟨text, rfl⟩ := connected_ok hdeliver
    obtain ⟨interrupts, hsent⟩ := connected_received.mp hdeliver
    obtain ⟨hfit, hreply⟩ := (unixServerHandle_sent hc .request h).mp hsent
    obtain ⟨lines, hlines⟩ := (unixHandleCommand_reply h).mp ⟨_, hreply⟩
    rw [← hserver] at hdeliver
    obtain ⟨hlength, rfl⟩ := (sendCommand_received hrequest hdeliver (hempty hlines)).mp hsend
    rw [hlines.parse hc (.answer hlines), printResponse_strings, hshown] at hout
    cases hout
    exact ⟨hfit, text, lines, hlines, hlength, rfl, rfl⟩
  · intro hrun
    obtain ⟨hfit, text, lines, hlines, hlength, rfl, rfl⟩ := hrun
    obtain ⟨interrupts, hreply⟩ := (unixHandleCommand_reply h).mpr ⟨lines, hlines⟩
    have hdeliver : world.deliver (cjson.printUnformatted (commandObject
        (input.takeWhile (· ≠ ' ')) (streamWords (input.dropWhile (· ≠ ' '))))) =
        .ok (.received text) := by
      rw [hserver]
      exact connected_received.mpr ⟨_, (unixServerHandle_sent hc .request h).mpr ⟨hfit, hreply⟩⟩
    refine ⟨cjson.parse text,
      (sendCommand_received hrequest hdeliver (hempty hlines)).mpr ⟨hlength, rfl⟩, ?_⟩
    rw [hlines.parse hc (.answer hlines), printResponse_strings, hshown]
    rfl

end Exchange

section Example

/-- A scan in a world in which nothing happens. -/
def silentWorld : ScanWorld := ⟨7, true, true, Buffer.zero 6, 1000, []⟩

/-- The command tab of a GUI that is connected to a server without snooping. -/
def connectedTab (s : Server) : CommandWorld :=
  ⟨connected JsonText.printer (initUnixCommands JsonText.printer false silentWorld) s, none, [],
    true, []⟩

theorem typed_echo_exact :
    handleCommand JsonText.printer (connectedTab smallServer) [] "echo one  \"two\"".toList =
      .ok (["$ echo one  \"two\"".toList, "one".toList, "\"two\"".toList], none) := by
  have hsub : "echo one  \"two\"".toList.takeWhile (· ≠ ' ') = "echo".toList := by decide
  have hparams : streamWords ("echo one  \"two\"".toList.dropWhile (· ≠ ' ')) =
      ["one".toList, "\"two\"".toList] := by decide +kernel
  rw [@typed_command_exact JsonText.printer false silentWorld smallServer
    (connectedTab smallServer) "echo one  \"two\"".toList [] _ none (JsonText.printer_lawful _) rfl
    (by decide +kernel), hsub, hparams]
  exact ⟨by decide +kernel, _, _, .echo _, by decide +kernel, rfl, rfl⟩

end Example

end DHCPServer
