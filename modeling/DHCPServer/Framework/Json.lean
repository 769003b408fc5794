import Mathlib.Data.List.DropRight
import Mathlib.Data.List.InsertIdx
import Mathlib.Data.Rat.Floor
import DHCPServer.Framework.Text

namespace DHCPServer

/-- A JSON value. Members keep their order, and a key may occur more than once. -/
inductive Json where
  | null
  | bool (b : Bool)
  | number (q : Rat)
  | string (s : List Char)
  | array (items : List Json)
  | object (members : List (List Char × Json))

namespace Json

/-- Comparison of keys, as ASCII letters without case. -/
def sameKey (a b : List Char) : Bool := a.map Char.toLower == b.map Char.toLower

/-- The first member with the key; there is none in a value that is not an object. -/
def getObjectItem (key : List Char) : Json → Option Json
  | .object members => (members.find? fun m => sameKey m.1 key).map Prod.snd
  | _ => none

def getStringValue : Json → Option (List Char)
  | .string s => some s
  | _ => none

def getNumberValue : Json → Option Rat
  | .number q => some q
  | _ => none

/-- The values a loop over an array visits; the loop runs over an object as well. -/
def children : Json → List Json
  | .array items => items
  | .object members => members.map Prod.snd
  | _ => []

/-- Appends to an array. In an object the new member has no key, other values cannot grow. -/
def addItemToArray (item : Json) : Json → Json
  | .array items => .array (items ++ [item])
  | .object members => .object (members ++ [([], item)])
  | v => v

def detachItemFromArray (index : Nat) : Json → Json
  | .array items => .array (items.eraseIdx index)
  | .object members => .object (members.eraseIdx index)
  | v => v

/-- Changes the value of the first member with the key. -/
def modifyMembers (key : List Char) (f : Json → Json) :
    List (List Char × Json) → List (List Char × Json)
  | [] => []
  | m :: ms => if sameKey m.1 key then (m.1, f m.2) :: ms else m :: modifyMembers key f ms

def modifyObjectItem (key : List Char) (f : Json → Json) : Json → Json
  | .object members => .object (modifyMembers key f members)
  | v => v

theorem children_detachItemFromArray (index : Nat) (v : Json) :
    (v.detachItemFromArray index).children = v.children.eraseIdx index := by
  cases v with
  | array items => rfl
  | object members => exact (List.eraseIdx_map Prod.snd members index).symm
  | null | bool | number | string => rfl

end Json

/-- The string under a key, if there is one. -/
def stringMember (json : Json) (key : List Char) : Option (List Char) :=
  (json.getObjectItem key).bind Json.getStringValue

/-- The number under a key, if there is one. -/
def numberMember (json : Json) (key : List Char) : Option Rat :=
  (json.getObjectItem key).bind Json.getNumberValue

theorem stringMember_eq_some {json : Json} {key s : List Char} (h : stringMember json key = some s) :
    json.getObjectItem key = some (.string s) := by
  obtain ⟨v, hv, hs⟩ := Option.bind_eq_some_iff.mp h
  cases v <;> cases hs
  exact hv

/-- The integer part of a number, as a conversion to an integer type takes it. -/
def truncate (q : Rat) : Int := if 0 ≤ q then ⌊q⌋ else ⌈q⌉

/-- Conversion to `uint32_t`: the integer part, reduced from 2^32 on. C leaves the conversion of a
negative or larger number undefined; x86-64 reduces below 2^63. The value of no number at all is
NaN. -/
def numberToUInt32 : Option Rat → UInt32
  | none => 0
  | some q => UInt32.ofInt (truncate q)

/-- Conversion to `uint8_t`, likewise; x86-64 reduces below 2^31. -/
def numberToUInt8 : Option Rat → UInt8
  | none => 0
  | some q => UInt8.ofInt (truncate q)

@[simp] theorem truncate_natCast (n : Nat) : truncate (n : Rat) = n := by
  rw [truncate, if_pos (by positivity), Int.floor_natCast]

theorem numberToUInt32_toNat (x : UInt32) : numberToUInt32 (some (x.toNat : Rat)) = x := by
  have hmod : ((x.toNat : Int) % 2 ^ 32).toNat = x.toNat := by
    have hx := x.toNat_lt
    omega
  rw [numberToUInt32, truncate_natCast, UInt32.ofInt, hmod, UInt32.ofNat_toNat]

theorem numberToUInt8_toNat (x : UInt8) : numberToUInt8 (some (x.toNat : Rat)) = x := by
  have hmod : ((x.toNat : Int) % 2 ^ 8).toNat = x.toNat := by
    have hx := x.toNat_lt
    omega
  rw [numberToUInt8, truncate_natCast, UInt8.ofInt, hmod, UInt8.ofNat_toNat]

/-- A library that prints JSON values and parses text. -/
structure JsonCodec where
  print : Json → List Char
  parse : List Char → Option Json

/-- Values that are printed come back when the text is parsed, and text behind a complete object is
ignored. Which values these are is left open: no library holds all of them. -/
structure JsonCodec.LawfulOn (codec : JsonCodec) (printed : Json → Prop) : Prop where
  inverse : ∀ v, printed v → codec.parse (codec.print v) = some v
  trailing : ∀ members tail, printed (.object members) →
    codec.parse (codec.print (.object members) ++ tail) = some (.object members)

namespace JsonText

/-- A string in quotes, with quotes and backslashes in it escaped. -/
def printChars : List Char → List Char
  | [] => ['"']
  | '"' :: s => '\\' :: '"' :: printChars s
  | '\\' :: s => '\\' :: '\\' :: printChars s
  | c :: s => c :: printChars s

def printString (s : List Char) : List Char := '"' :: printChars s

/-- Integers in decimal, other numbers as fractions. -/
def printNumber (q : Rat) : List Char :=
  (if q.num < 0 then ['-'] else []) ++ decimal q.num.natAbs ++
    if q.den = 1 then [] else '/' :: decimal q.den

def tabs (depth : Nat) : List Char := List.replicate depth '\t'

mutual

/-- Values in the layout with one member a line. -/
def printValue (depth : Nat) : Json → List Char
  | .null => ['n', 'u', 'l', 'l']
  | .bool true => ['t', 'r', 'u', 'e']
  | .bool false => ['f', 'a', 'l', 's', 'e']
  | .number q => printNumber q
  | .string s => printString s
  | .array items => '[' :: printItems (depth + 1) items
  | .object members => '{' :: '\n' :: printMembers (depth + 1) members

/-- The items of an array from some point on, with the closing bracket. -/
def printItems (depth : Nat) : List Json → List Char
  | [] => [']']
  | [v] => printValue depth v ++ [']']
  | v :: vs => printValue depth v ++ ',' :: ' ' :: printItems depth vs

/-- The members of an object from some point on, with the closing brace. -/
def printMembers (depth : Nat) : List (List Char × Json) → List Char
  | [] => tabs (depth - 1) ++ ['}']
  | [(k, v)] => tabs depth ++ (printString k ++ ':' :: '\t' :: (printValue depth v ++
      '\n' :: (tabs (depth - 1) ++ ['}'])))
  | (k, v) :: ms => tabs depth ++ (printString k ++ ':' :: '\t' :: (printValue depth v ++
      ',' :: '\n' :: printMembers depth ms))

end

/-- White space and control characters between tokens. -/
def skipBlank (s : List Char) : List Char := s.dropWhile fun c => c.toNat ≤ 32

/-- The rest of a string behind its opening quote. -/
def parseChars : List Char → Option (List Char × List Char)
  | [] => none
  | '"' :: s => some ([], s)
  | '\\' :: c :: s => (parseChars s).map fun r => (c :: r.1, r.2)
  | c :: s => (parseChars s).map fun r => (c :: r.1, r.2)

def parseNumber (s : List Char) : Option (Json × List Char) :=
  let (negative, s) := scanSign s
  match scanDigits s with
  | ([], _) => none
  | (ds, s) =>
    let n : Int := Nat.ofDigitChars 10 ds 0
    let num := if negative then -n else n
    match s with
    | '/' :: s =>
      let (ds, s) := scanDigits s
      some (.number (mkRat num (Nat.ofDigitChars 10 ds 0)), s)
    | s => some (.number num, s)

/-- The given characters, or failure. -/
def expect : List Char → List Char → Option (List Char)
  | [], s => some s
  | c :: cs, s => (scanChar c s).bind (expect cs)

mutual

def parseValue : Nat → List Char → Option (Json × List Char)
  | 0, _ => none
  | fuel + 1, s =>
    match skipBlank s with
    | 'n' :: s => (expect ['u', 'l', 'l'] s).map fun s => (.null, s)
    | 't' :: s => (expect ['r', 'u', 'e'] s).map fun s => (.bool true, s)
    | 'f' :: s => (expect ['a', 'l', 's', 'e'] s).map fun s => (.bool false, s)
    | '"' :: s => (parseChars s).map fun r => (.string r.1, r.2)
    | '[' :: s =>
      match skipBlank s with
      | ']' :: s => some (.array [], s)
      | s => (parseItems fuel s).map fun r => (.array r.1, r.2)
    | '{' :: s =>
      match skipBlank s with
      | '}' :: s => some (.object [], s)
      | s => (parseMembers fuel s).map fun r => (.object r.1, r.2)
    | s => parseNumber s

/-- The items of an array from one of them on, with the closing bracket. -/
def parseItems : Nat → List Char → Option (List Json × List Char)
  | 0, _ => none
  | fuel + 1, s => do
    let (v, s) ← parseValue fuel s
    match skipBlank s with
    | ',' :: s =>
      let (vs, s) ← parseItems fuel s
      return (v :: vs, s)
    | ']' :: s => return ([v], s)
    | _ => none

/-- The members of an object from one of them on, with the closing brace. -/
def parseMembers : Nat → List Char → Option (List (List Char × Json) × List Char)
  | 0, _ => none
  | fuel + 1, s => do
    let s ← scanChar '"' (skipBlank s)
    let (k, s) ← parseChars s
    let s ← scanChar ':' (skipBlank s)
    let (v, s) ← parseValue fuel s
    match skipBlank s with
    | ',' :: s =>
      let (ms, s) ← parseMembers fuel s
      return ((k, v) :: ms, s)
    | '}' :: s => return ([(k, v)], s)
    | _ => none

end

def parse (s : List Char) : Option Json := (parseValue (s.length + 1) s).map Prod.fst

section RoundTrip

variable {rest : List Char}

theorem parseChars_print (s rest : List Char) :
    parseChars (printChars s ++ rest) = some (s, rest) := by
  induction s using printChars.induct with
  | case1 => rfl
  | case2 s ih => simp [printChars, parseChars, ih]
  | case3 s ih => simp [printChars, parseChars, ih]
  | case4 c s hq hb ih =>
    rw [printChars.eq_4 c s hq hb, List.cons_append, parseChars.eq_4 c _ hq ?_, ih]
    · rfl
    · intro c' s' hc
      exact absurd hc hb

/-- What may follow a number. -/
def Ends (s : List Char) : Prop := NoDigit s ∧ ∀ c ∈ s.head?, c ≠ '/'

theorem ends_nil : Ends [] := by
  simp [Ends, NoDigit]

theorem ends_cons {c : Char} {s : List Char} (hd : c.isDigit = false) (hc : c ≠ '/') :
    Ends (c :: s) := by
  simp [Ends, NoDigit, hd, hc]

theorem skipBlank_cons {c : Char} {s : List Char} (h : 32 < c.toNat) :
    skipBlank (c :: s) = c :: s := by
  have hc : ¬c.toNat ≤ 32 := by omega
  simp [skipBlank, hc]

theorem skipBlank_tabs (depth : Nat) (s : List Char) : skipBlank (tabs depth ++ s) = skipBlank s := by
  unfold skipBlank tabs
  rw [List.dropWhile_append_of_pos]
  intro c hc
  rw [(List.mem_replicate.mp hc).2]
  rfl

theorem skipBlank_space (s : List Char) : skipBlank (' ' :: s) = skipBlank s := rfl

theorem skipBlank_newline (s : List Char) : skipBlank ('\n' :: s) = skipBlank s := rfl

/-- The digits of a number, with what follows them, as a number reads them. -/
theorem parseNumber_print (q : Rat) (h : Ends rest) :
    parseNumber (printNumber q ++ rest) = some (.number q, rest) := by
  have hslash : NoDigit ('/' :: (decimal q.den ++ rest)) := by
    intro c hc
    obtain rfl : '/' = c := by simpa using hc
    decide
  have hsign : scanSign (printNumber q ++ rest) = (decide (q.num < 0), decimal q.num.natAbs ++
      ((if q.den = 1 then [] else '/' :: decimal q.den) ++ rest)) := by
    unfold printNumber
    by_cases hneg : q.num < 0
    · simp [hneg, scanSign]
    · simp only [hneg, if_false, List.nil_append, decide_false, List.append_assoc]
      exact scanSign_decimal _ _
  have hnum : (if decide (q.num < 0) = true then -((q.num.natAbs : Nat) : Int)
      else ((q.num.natAbs : Nat) : Int)) = q.num := by
    by_cases hneg : q.num < 0
    · rw [if_pos (by simpa using hneg)]
      omega
    · rw [if_neg (by simpa using hneg)]
      omega
  obtain ⟨d, ds, hdigits, -⟩ := decimal_cons q.num.natAbs
  have hvalue := ofDigitChars_decimal q.num.natAbs
  unfold parseNumber
  rw [hsign]
  by_cases hden : q.den = 1
  · simp only [hden, if_true, List.nil_append, scanDigits_decimal h.1]
    rw [hdigits] at hvalue ⊢
    simp only [hvalue, hnum]
    split
    · exact absurd rfl (h.2 '/' rfl)
    · rw [Rat.coe_int_num_of_den_eq_one hden]
  · simp only [hden, if_false, List.cons_append, scanDigits_decimal hslash]
    rw [hdigits] at hvalue ⊢
    simp only [hvalue, hnum, scanDigits_decimal h.1, ofDigitChars_decimal, Rat.mkRat_self]

theorem printNumber_head (q : Rat) :
    ∃ c s, printNumber q = c :: s ∧ (c = '-' ∨ c.isDigit = true) := by
  obtain ⟨c, s, hcs, hc⟩ := decimal_cons q.num.natAbs
  by_cases hneg : q.num < 0
  · exact ⟨'-', _, by simp [printNumber, hneg]; rfl, .inl rfl⟩
  · exact ⟨c, _, by simp [printNumber, hneg, hcs]; rfl, .inr hc⟩

/-- A number starts with no character that another value starts with. -/
theorem number_start {c : Char} (h : c = '-' ∨ c.isDigit = true) :
    32 < c.toNat ∧ c ≠ ']' ∧ c ≠ 'n' ∧ c ≠ 't' ∧ c ≠ 'f' ∧ c ≠ '"' ∧ c ≠ '[' ∧ c ≠ '{' := by
  rcases h with rfl | h
  · decide
  · have hb := isDigit_bounds h
    refine ⟨by omega, ?_, ?_, ?_, ?_, ?_, ?_, ?_⟩ <;>
    · intro hc
      rw [hc] at hb
      exact absurd hb (by decide)

/-- A printed value starts with a character that is neither blank nor closes an array. -/
theorem printValue_head (depth : Nat) (v : Json) :
    ∃ c s, printValue depth v = c :: s ∧ 32 < c.toNat ∧ c ≠ ']' := by
  cases v with
  | null => exact ⟨_, _, rfl, by decide, by decide⟩
  | bool b => cases b <;> exact ⟨_, _, rfl, by decide, by decide⟩
  | number q =>
    obtain ⟨c, s, hcs, hc⟩ := printNumber_head q
    have hstart := number_start hc
    exact ⟨c, s, hcs, hstart.1, hstart.2.1⟩
  | string s => exact ⟨_, _, rfl, by decide, by decide⟩
  | array items => exact ⟨_, _, rfl, by decide, by decide⟩
  | object members => exact ⟨_, _, rfl, by decide, by decide⟩

/-- A number is read by the last branch of the parser. -/
theorem parseValue_number (q : Rat) (fuel : Nat) (h : Ends rest) :
    parseValue (fuel + 1) (printNumber q ++ rest) = some (.number q, rest) := by
  obtain ⟨c, s, hcs, hc⟩ := printNumber_head q
  have hnumber := parseNumber_print q h
  obtain ⟨hblank, -, hn, ht, hf, hq, ha, ho⟩ := number_start hc
  rw [hcs, List.cons_append] at hnumber ⊢
  rw [parseValue, skipBlank_cons hblank]
  split
  · rename_i heq
    exact absurd (List.cons.inj heq).1 hn
  · rename_i heq
    exact absurd (List.cons.inj heq).1 ht
  · rename_i heq
    exact absurd (List.cons.inj heq).1 hf
  · rename_i heq
    exact absurd (List.cons.inj heq).1 hq
  · rename_i heq
    exact absurd (List.cons.inj heq).1 ha
  · rename_i heq
    exact absurd (List.cons.inj heq).1 ho
  · exact hnumber

theorem printItems_head (depth : Nat) (v : Json) (vs : List Json) :
    ∃ c s, printItems depth (v :: vs) = c :: s ∧ 32 < c.toNat ∧ c ≠ ']' := by
  obtain ⟨c, s, hcs, hc⟩ := printValue_head depth v
  cases vs with
  | nil => exact ⟨c, s ++ [']'], by simp [printItems, hcs], hc⟩
  | cons v' vs => exact ⟨c, s ++ ',' :: ' ' :: printItems depth (v' :: vs), by simp [printItems, hcs], hc⟩

theorem skipBlank_idem (s : List Char) : skipBlank (skipBlank s) = skipBlank s := by
  unfold skipBlank
  exact List.dropWhile_idempotent _ _

theorem parseValue_skipBlank (fuel : Nat) (s : List Char) :
    parseValue fuel (skipBlank s) = parseValue fuel s := by
  cases fuel with
  | zero => rfl
  | succ fuel => rw [parseValue, parseValue, skipBlank_idem]

theorem parseItems_skipBlank (fuel : Nat) (s : List Char) :
    parseItems fuel (skipBlank s) = parseItems fuel s := by
  cases fuel with
  | zero => rfl
  | succ fuel => rw [parseItems, parseItems, parseValue_skipBlank]

theorem parseMembers_skipBlank (fuel : Nat) (s : List Char) :
    parseMembers fuel (skipBlank s) = parseMembers fuel s := by
  cases fuel with
  | zero => rfl
  | succ fuel => rw [parseMembers, parseMembers, skipBlank_idem]

/-- The first member of an object, behind the blanks of its line. -/
theorem printMembers_head (depth : Nat) (m : List Char × Json) (ms : List (List Char × Json)) :
    ∃ s, printMembers depth (m :: ms) = tabs depth ++ '"' :: s := by
  obtain ⟨k, v⟩ := m
  cases ms with
  | nil => exact ⟨_, rfl⟩
  | cons m' ms => exact ⟨_, rfl⟩

mutual

theorem parseValue_print (v : Json) (depth fuel : Nat) (rest : List Char)
    (h : (∃ q, v = .number q) → Ends rest) (hfuel : (printValue depth v).length ≤ fuel) :
    parseValue fuel (printValue depth v ++ rest) = some (v, rest) := by
  obtain ⟨c, s, hcs, hblank, -⟩ := printValue_head depth v
  obtain ⟨fuel, rfl⟩ : ∃ f, fuel = f + 1 := ⟨fuel - 1, by
    rw [hcs, List.length_cons] at hfuel
    omega⟩
  cases v with
  | null => simp [printValue, parseValue, skipBlank, expect, scanChar]
  | bool b => cases b <;> simp [printValue, parseValue, skipBlank, expect, scanChar]
  | number q => exact parseValue_number q fuel (h ⟨q, rfl⟩)
  | string s =>
    have hchars := parseChars_print s rest
    simp [printValue, printString, parseValue, skipBlank, hchars]
  | array items =>
    cases items with
    | nil => simp [printValue, printItems, parseValue, skipBlank]
    | cons v vs =>
      have hitems := parseItems_print v vs (depth + 1) fuel rest (by
        simp only [printValue, List.length_cons] at hfuel
        omega)
      obtain ⟨c, s, hcs, hblank, hclose⟩ := printItems_head (depth + 1) v vs
      rw [printValue, List.cons_append, parseValue, skipBlank_cons (by decide)]
      rw [hcs, List.cons_append] at hitems ⊢
      simp only [skipBlank_cons hblank]
      split
      · rename_i heq
        exact absurd (List.cons.inj heq).1 hclose
      · rw [hitems]
        rfl
  | object members =>
    cases members with
    | nil =>
      have hskip : skipBlank ('\n' :: (tabs depth ++ ['}']) ++ rest) = '}' :: rest := by
        rw [List.cons_append, skipBlank_newline, List.append_assoc, skipBlank_tabs]
        rfl
      rw [printValue, List.cons_append, parseValue, skipBlank_cons (by decide)]
      simp only [printMembers, Nat.add_sub_cancel, hskip]
    | cons m ms =>
      have hmembers := parseMembers_print m ms (depth + 1) fuel rest (by
        simp only [printValue, List.length_cons] at hfuel
        omega)
      obtain ⟨s, hs⟩ := printMembers_head (depth + 1) m ms
      have hskip : skipBlank ('\n' :: printMembers (depth + 1) (m :: ms) ++ rest) =
          '"' :: (s ++ rest) := by
        rw [List.cons_append, skipBlank_newline, hs, List.append_assoc, skipBlank_tabs]
        rfl
      have hparse : parseMembers fuel ('"' :: (s ++ rest)) = some (m :: ms, rest) := by
        rw [← hskip, parseMembers_skipBlank, List.cons_append, ← parseMembers_skipBlank,
          skipBlank_newline, parseMembers_skipBlank]
        exact hmembers
      rw [printValue, List.cons_append, parseValue, skipBlank_cons (by decide)]
      simp only [hskip]
      split
      · rename_i heq
        exact absurd (List.cons.inj heq).1 (by decide)
      · rw [hparse]
        rfl
termination_by fuel

theorem parseItems_print (v : Json) (vs : List Json) (depth fuel : Nat) (rest : List Char)
    (hfuel : (printItems depth (v :: vs)).length ≤ fuel) :
    parseItems fuel (printItems depth (v :: vs) ++ rest) = some (v :: vs, rest) := by
  obtain ⟨fuel, rfl⟩ : ∃ f, fuel = f + 1 := ⟨fuel - 1, by
    obtain ⟨c, s, hcs, -⟩ := printItems_head depth v vs
    rw [hcs, List.length_cons] at hfuel
    omega⟩
  cases vs with
  | nil =>
    simp only [printItems, List.length_append, List.length_singleton] at hfuel
    have hv := parseValue_print v depth fuel (']' :: rest)
      (fun _ => ends_cons (by decide) (by decide)) (by omega)
    simp only [printItems, List.append_assoc, List.singleton_append, parseItems, hv, bind,
      Option.bind, skipBlank_cons (by decide : 32 < ']'.toNat)]
    rfl
  | cons v' vs =>
    simp only [printItems, List.length_append, List.length_cons] at hfuel
    have hv := parseValue_print v depth fuel (',' :: ' ' :: (printItems depth (v' :: vs) ++ rest))
      (fun _ => ends_cons (by decide) (by decide)) (by omega)
    have hvs : parseItems fuel (' ' :: (printItems depth (v' :: vs) ++ rest)) =
        some (v' :: vs, rest) := by
      rw [← parseItems_skipBlank, skipBlank_space, parseItems_skipBlank]
      exact parseItems_print v' vs depth fuel rest (by omega)
    simp only [printItems, List.append_assoc, List.cons_append, parseItems, hv, bind,
      Option.bind, skipBlank_cons (by decide : 32 < ','.toNat), hvs]
    rfl
termination_by fuel

theorem parseMembers_print (m : List Char × Json) (ms : List (List Char × Json))
    (depth fuel : Nat) (rest : List Char)
    (hfuel : (printMembers depth (m :: ms)).length ≤ fuel) :
    parseMembers fuel (printMembers depth (m :: ms) ++ rest) = some (m :: ms, rest) := by
  obtain ⟨k, v⟩ := m
  have hlen : 0 < (printMembers depth ((k, v) :: ms)).length := by
    obtain ⟨s, hs⟩ := printMembers_head depth (k, v) ms
    simp [hs]
  obtain ⟨fuel, rfl⟩ : ∃ f, fuel = f + 1 := ⟨fuel - 1, by omega⟩
  have hkey : ∀ s, skipBlank (tabs depth ++ (printString k ++ ':' :: s)) =
      '"' :: (printChars k ++ ':' :: s) := by
    intro s
    rw [skipBlank_tabs]
    rfl
  -- the tab between the colon and the value is skipped with the value
  have hvalue : ∀ s, Ends s → (printValue depth v).length ≤ fuel →
      parseValue fuel ('\t' :: (printValue depth v ++ s)) = some (v, s) := by
    intro s hs hlt
    have htab : skipBlank ('\t' :: (printValue depth v ++ s)) = skipBlank (printValue depth v ++ s) :=
      rfl
    rw [← parseValue_skipBlank, htab, parseValue_skipBlank]
    exact parseValue_print v depth fuel s (fun _ => hs) hlt
  cases ms with
  | nil =>
    simp only [printMembers, List.length_append, List.length_cons] at hfuel
    have hv := hvalue ('\n' :: (tabs (depth - 1) ++ '}' :: rest))
      (ends_cons (by decide) (by decide)) (by omega)
    have hclose : skipBlank ('\n' :: (tabs (depth - 1) ++ '}' :: rest)) = '}' :: rest := by
      rw [skipBlank_newline, skipBlank_tabs]
      rfl
    simp only [printMembers, List.append_assoc, List.cons_append, List.nil_append, parseMembers,
      hkey, scanChar, if_true, bind, Option.bind, parseChars_print,
      skipBlank_cons (by decide : 32 < ':'.toNat), hv, hclose]
    rfl
  | cons m' ms =>
    simp only [printMembers, List.length_append, List.length_cons] at hfuel
    have hv := hvalue (',' :: '\n' :: (printMembers depth (m' :: ms) ++ rest))
      (ends_cons (by decide) (by decide)) (by omega)
    have hms : parseMembers fuel ('\n' :: (printMembers depth (m' :: ms) ++ rest)) =
        some (m' :: ms, rest) := by
      rw [← parseMembers_skipBlank, skipBlank_newline, parseMembers_skipBlank]
      exact parseMembers_print m' ms depth fuel rest (by omega)
    simp only [printMembers, List.append_assoc, List.cons_append, parseMembers,
      hkey, scanChar, if_true, bind, Option.bind, parseChars_print,
      skipBlank_cons (by decide : 32 < ':'.toNat), hv, skipBlank_cons (by decide : 32 < ','.toNat),
      hms]
    rfl
termination_by fuel

end

/-- A printed value is read back; behind a number no digit may follow. -/
theorem parse_print (v : Json) (tail : List Char) (h : (∃ q, v = .number q) → Ends tail) :
    parse (printValue 0 v ++ tail) = some v := by
  unfold parse
  rw [parseValue_print v 0 _ tail h (by rw [List.length_append]; omega)]
  rfl

end RoundTrip

def codec : JsonCodec := ⟨printValue 0, parse⟩

theorem codec_lawful (printed : Json → Prop) : codec.LawfulOn printed where
  inverse v _ := by
    have h := parse_print v [] fun _ => ends_nil
    rwa [List.append_nil] at h
  trailing members tail _ := by
    apply parse_print
    intro hq
    obtain ⟨q, hq⟩ := hq
    cases hq

end JsonText

end DHCPServer
