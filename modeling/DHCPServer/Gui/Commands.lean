import DHCPServer.Framework.JsonPath
import DHCPServer.Gui.Number

namespace DHCPServer

/-- What `std::getline` with a delimiter gives until the end; nothing comes behind a last
delimiter. -/
def getlines (delim : Char) (s : CString) : List CString :=
  let pieces := s.splitOn delim
  if pieces.getLast? = some [] then pieces.dropLast else pieces

/-- `is_number` -/
def isNumber (s : CString) : Bool := !s.isEmpty && s.all Char.isDigit

/-- The child of a value that a word of a path stands for. -/
def pathStep (word : CString) : Except GuiError JsonStep :=
  if isNumber word then do
    let n ← stoi word
    return .index n.toNat
  else .ok (.key word)

def pathSteps : List CString → Except GuiError (List JsonStep)
  | [] => .ok []
  | word :: words => do
    let s ← pathStep word
    let ss ← pathSteps words
    return s :: ss

/-- `config_get_path`; the pointer it returns is given as the place it points to. Words behind a
null pointer are still read. -/
def configGetPath (root : Json) (path : CString) : Except GuiError (Option Json.Place) := do
  let steps ← pathSteps (getlines '.' path)
  return root.locate steps

/-- `std::to_string` of an `int`. -/
def intText (n : Int) : CString := (if n < 0 then ['-'] else []) ++ decimal n.natAbs

/-- The member `valueint` of a number, which saturates. -/
def valueInt (q : Rat) : Int :=
  if (2 ^ 31 - 1 : Rat) ≤ q then 2 ^ 31 - 1 else if q ≤ -2 ^ 31 then -2 ^ 31 else truncate q

/-- The line that `config get` prints for an entry. -/
def shownValue : Json → CString
  | .string s => s
  | .number q => intText (valueInt q)
  | .bool b => if b then "True".toList else "False".toList
  | _ => "Error: Cannot show value of this object".toList

/-- The switch of `config set`: the line that is printed, if any, and the value the entry then has.
`none` stands for an entry that cannot be set, after which the file is not written. -/
def setValue (conf : Json) (value : CString) : Except GuiError (Option (Option CString × Json)) :=
  match conf with
  | .string _ => .ok (some (none, .string value))
  | .number _ =>
    if isNumber value then do
      let n ← stoi value
      return some (none, .number (n : Rat))
    else .ok (some ("Error: expected number".toList, conf))
  | .bool _ =>
    match value.head? with
    | some '0' => .ok (some (none, .bool false))
    | some '1' => .ok (some (none, .bool true))
    | _ => .ok (some ("Error: expected boolean (0|1)".toList, conf))
  | _ => .ok none

/-- A command line, and the world it is run in: the bytes up to the first NUL behind the buffer of
the file, which is not terminated, and whether the file can be opened for writing. -/
structure ConfigCommand where
  input : CString
  behind : CString
  writable : Bool
  errno : CString

/-- The words of the line that are looked at. -/
def ConfigCommand.words (c : ConfigCommand) : List CString := (getlines ' ' c.input).take 4

/-- The part of `command_config` behind the lookup. -/
def configEntry (cjson : JsonCodec) (c : ConfigCommand) (text : CString) (json : Json)
    (place : Json.Place) : Except GuiError (List CString × CString) :=
  let conf := (json.valueAt place).getD .null
  if c.words[1]? = some "get".toList then .ok ([shownValue conf], text)
  else if c.words[1]? = some "set".toList then
    match c.words[3]? with
    | none => .ok (["Error: Missing new value, check command usage".toList], text)
    | some value => do
      match ← setValue conf value with
      | none => return (["Error: Cannot set value of this object".toList], text)
      | some (line, v) =>
        if c.writable then
          return (line.toList, cjson.print (json.modifyAt place fun _ => v) ++ ['\n'])
        else return (line.toList ++ ["Failed to open config file: ".toList ++ c.errno], text)
  else .ok ([], text)

/-- `command_config` with the text of the file: what is printed, and the text afterwards. -/
def commandConfig (cjson : JsonCodec) (c : ConfigCommand) (text : CString) :
    Except GuiError (List CString × CString) :=
  match cjson.parse (text ++ c.behind) with
  | none => .ok (["Erorr: failed to parse JSON".toList], text)
  | some json =>
    match c.words[2]? with
    | none => .ok (["Error: Bad input format, check usage".toList], text)
    | some path => do
      match ← configGetPath json path with
      | none => return (["Error: Could not find config entry ".toList ++ path], text)
      | some place => configEntry cjson c text json place

/-- `command_config`; there may be no file. -/
def commandConfigFile (cjson : JsonCodec) (c : ConfigCommand) :
    Option CString → Except GuiError (List CString × Option CString)
  | none => .ok (["Error opening config file".toList], none)
  | some text => do
    let (lines, text) ← commandConfig cjson c text
    return (lines, some text)

end DHCPServer
