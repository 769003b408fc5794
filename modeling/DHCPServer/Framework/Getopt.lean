import Mathlib.Data.List.TakeWhile
import Mathlib.Tactic

namespace DHCPServer

/-- How an option is read: by itself, or with the argument that it requires. -/
inductive OptionForm (α : Type) where
  | noArgument (flag : α)
  | requiredArgument (flag : List Char → α)

namespace Getopt

variable {α : Type} (long : List (List Char × OptionForm α)) (short : Char → Option (OptionForm α))
  (unknown : α)

/-- The long option with the name, else the only one whose name starts with it. -/
def findLong (name : List Char) : Option (OptionForm α) :=
  match long.find? (·.1 == name) with
  | some option => some option.2
  | none =>
    match long.filter fun option => name.isPrefixOf option.1 with
    | [option] => some option.2
    | _ => none

/-- A long option, without its dashes. The flag is true if the next argument belongs to it. -/
def readLong (text : List Char) (next : Option (List Char)) : α × Bool :=
  let name := text.takeWhile (· != '=')
  let value := text.drop name.length
  match findLong long name with
  | none => (unknown, false)
  | some (.noArgument flag) => (if value = [] then flag else unknown, false)
  | some (.requiredArgument flag) =>
    match value, next with
    | _ :: value, _ => (flag value, false)
    | [], some next => (flag next, true)
    | [], none => (unknown, false)

/-- The short options of one argument, without the dash. An option that requires an argument takes
the rest of the characters, and the next argument if there are none. -/
def readShort : List Char → Option (List Char) → List α × Bool
  | [], _ => ([], false)
  | c :: cs, next =>
    match short c, cs, next with
    | none, _, _ => (unknown :: (readShort cs next).1, (readShort cs next).2)
    | some (.noArgument flag), _, _ => (flag :: (readShort cs next).1, (readShort cs next).2)
    | some (.requiredArgument flag), _ :: _, _ => ([flag cs], false)
    | some (.requiredArgument flag), [], some next => ([flag next], true)
    | some (.requiredArgument _), [], none => ([unknown], false)

/-- The options of one argument; an argument without a dash, or with nothing behind it, has none. -/
def readArgument : List Char → Option (List Char) → List α × Bool
  | '-' :: '-' :: text, next =>
    ([(readLong long unknown text next).1], (readLong long unknown text next).2)
  | '-' :: c :: cs, next => readShort short unknown (c :: cs) next
  | _, _ => ([], false)

/-- The results of `getopt_long` call after call, for the arguments behind the program name. The
flag tells whether the first of them belongs to the option before. -/
def readFrom : Bool → List (List Char) → List α
  | _, [] => []
  | true, _ :: args => readFrom false args
  | false, arg :: args =>
    if arg = ['-', '-'] then []
    else
      let (flags, taken) := readArgument long short unknown arg args.head?
      flags ++ readFrom taken args

end Getopt

/-- All options `getopt_long` finds in the arguments of a program. Arguments that are no options
are passed over, those behind `--` are not looked at. -/
def getoptLong {α : Type} (long : List (List Char × OptionForm α))
    (short : Char → Option (OptionForm α)) (unknown : α) (args : List (List Char)) : List α :=
  Getopt.readFrom long short unknown false args

namespace Getopt

variable {α : Type} {long : List (List Char × OptionForm α)}
  {short : Char → Option (OptionForm α)} {unknown : α}

theorem takeWhile_name {name : List Char} (h : '=' ∉ name) :
    name.takeWhile (· != '=') = name := by
  rw [List.takeWhile_eq_self_iff]
  intro c hc
  simpa using fun heq : c = '=' => h (heq ▸ hc)

/-- A long option in an argument of its own takes the next one. -/
theorem getoptLong_pair {name : List Char} {flag : List Char → α} (hne : name ≠ [])
    (hname : '=' ∉ name) (hlong : findLong long name = some (.requiredArgument flag))
    (arg : List Char) (args : List (List Char)) :
    getoptLong long short unknown (('-' :: '-' :: name) :: arg :: args) =
      flag arg :: getoptLong long short unknown args := by
  have hread : readLong long unknown name (some arg) = (flag arg, true) := by
    rw [readLong, takeWhile_name hname, hlong]
    simp
  simp [getoptLong, readFrom, readArgument, hread, hne]

end Getopt

end DHCPServer
