import DHCPServer.Framework.Json

namespace DHCPServer

/-- A library that prints JSON values without layout as well. -/
structure JsonPrinter extends JsonCodec where
  printUnformatted : Json → List Char

/-- A character that stands for itself in a string. -/
def Json.plainChar (c : Char) : Bool := c != '"' && c != '\\' && decide (32 ≤ c.toNat)

/-- What is printed without layout is read back, too. No value has an empty text, and an array of
one plain string reads as what it shows. -/
structure JsonPrinter.LawfulOn (cjson : JsonPrinter) (printed : Json → Prop) : Prop where
  unformatted : ∀ v, printed v → cjson.parse (cjson.printUnformatted v) = some v
  empty : cjson.parse [] = none
  plain : ∀ s, s.all Json.plainChar = true →
    cjson.parse ('[' :: '"' :: (s ++ ['"', ']'])) = some (.array [.string s])

namespace JsonText

mutual

/-- Values without any layout. -/
def compactValue : Json → List Char
  | .null => ['n', 'u', 'l', 'l']
  | .bool true => ['t', 'r', 'u', 'e']
  | .bool false => ['f', 'a', 'l', 's', 'e']
  | .number q => printNumber q
  | .string s => printString s
  | .array items => '[' :: compactItems items
  | .object members => '{' :: compactMembers members

/-- The items of an array from some point on, with the closing bracket. -/
def compactItems : List Json → List Char
  | [] => [']']
  | [v] => compactValue v ++ [']']
  | v :: vs => compactValue v ++ ',' :: compactItems vs

/-- The members of an object from some point on, with the closing brace. -/
def compactMembers : List (List Char × Json) → List Char
  | [] => ['}']
  | [(k, v)] => printString k ++ ':' :: (compactValue v ++ ['}'])
  | (k, v) :: ms => printString k ++ ':' :: (compactValue v ++ ',' :: compactMembers ms)

end

section RoundTrip

variable {rest : List Char}

theorem compactValue_head (v : Json) :
    ∃ c s, compactValue v = c :: s ∧ 32 < c.toNat ∧ c ≠ ']' := by
  cases v with
  | null => exact ⟨_, _, rfl, by decide, by decide⟩
  | bool b => cases b <;> exact ⟨_, _, rfl, by decide, by decide⟩
  | number q =>
    obtain ⟨c, s, hcs, hc⟩ := printNumber_head q
    have hstart := number_start hc
    exact ⟨c, s, hcs, hstart.1, hstart.2.1⟩
  | string s => exact ⟨_, _, rfl, by decide, by decide⟩
  | array items => exact ⟨_, _, rfl, by decide, by decide⟩
  | object members => exact ⟨_, _, rfl, by decide, by decide⟩

theorem compactItems_head (v : Json) (vs : List Json) :
    ∃ c s, compactItems (v :: vs) = c :: s ∧ 32 < c.toNat ∧ c ≠ ']' := by
  obtain ⟨c, s, hcs, hc⟩ := compactValue_head v
  cases vs with
  | nil => exact ⟨c, s ++ [']'], by simp [compactItems, hcs], hc⟩
  | cons v' vs => exact ⟨c, s ++ ',' :: compactItems (v' :: vs), by simp [compactItems, hcs], hc⟩

theorem compactMembers_head (m : List Char × Json) (ms : List (List Char × Json)) :
    ∃ s, compactMembers (m :: ms) = '"' :: s := by
  obtain ⟨k, v⟩ := m
  cases ms with
  | nil => exact ⟨_, rfl⟩
  | cons m' ms => exact ⟨_, rfl⟩

mutual

theorem parseValue_compact (v : Json) (fuel : Nat) (rest : List Char)
    (h : (∃ q, v = .number q) → Ends rest) (hfuel : (compactValue v).length ≤ fuel) :
    parseValue fuel (compactValue v ++ rest) = some (v, rest) := by
  obtain ⟨c, s, hcs, hblank, -⟩ := compactValue_head v
  obtain ⟨fuel, rfl⟩ : ∃ f, fuel = f + 1 := ⟨fuel - 1, by
    rw [hcs, List.length_cons] at hfuel
    omega⟩
  cases v with
  | null => simp [compactValue, parseValue, skipBlank, expect, scanChar]
  | bool b => cases b <;> simp [compactValue, parseValue, skipBlank, expect, scanChar]
  | number q => exact parseValue_number q fuel (h ⟨q, rfl⟩)
  | string s =>
    have hchars := parseChars_print s rest
    simp [compactValue, printString, parseValue, skipBlank, hchars]
  | array items =>
    cases items with
    | nil => simp [compactValue, compactItems, parseValue, skipBlank]
    | cons v vs =>
      have hitems := parseItems_compact v vs fuel rest (by
        simp only [compactValue, List.length_cons] at hfuel
        omega)
      obtain ⟨c, s, hcs, hblank, hclose⟩ := compactItems_head v vs
      rw [compactValue, List.cons_append, parseValue, skipBlank_cons (by decide)]
      rw [hcs, List.cons_append] at hitems ⊢
      simp only [skipBlank_cons hblank]
      split
      · rename_i heq
        exact absurd (List.cons.inj heq).1 hclose
      · rw [hitems]
        rfl
  | object members =>
    cases members with
    | nil => simp [compactValue, compactMembers, parseValue, skipBlank]
    | cons m ms =>
      have hmembers := parseMembers_compact m ms fuel rest (by
        simp only [compactValue, List.length_cons] at hfuel
        omega)
      obtain ⟨s, hs⟩ := compactMembers_head m ms
      rw [compactValue, List.cons_append, parseValue, skipBlank_cons (by decide)]
      rw [hs, List.cons_append] at hmembers ⊢
      simp only [skipBlank_cons (by decide : 32 < '"'.toNat)]
      split
      · rename_i heq
        exact absurd (List.cons.inj heq).1 (by decide)
      · rw [hmembers]
        rfl
termination_by fuel

theorem parseItems_compact (v : Json) (vs : List Json) (fuel : Nat) (rest : List Char)
    (hfuel : (compactItems (v :: vs)).length ≤ fuel) :
    parseItems fuel (compactItems (v :: vs) ++ rest) = some (v :: vs, rest) := by
  obtain ⟨fuel, rfl⟩ : ∃ f, fuel = f + 1 := ⟨fuel - 1, by
    obtain ⟨c, s, hcs, -⟩ := compactItems_head v vs
    rw [hcs, List.length_cons] at hfuel
    omega⟩
  cases vs with
  | nil =>
    simp only [compactItems, List.length_append, List.length_singleton] at hfuel
    have hv := parseValue_compact v fuel (']' :: rest)
      (fun _ => ends_cons (by decide) (by decide)) (by omega)
    simp only [compactItems, List.append_assoc, List.singleton_append, parseItems, hv, bind,
      Option.bind, skipBlank_cons (by decide : 32 < ']'.toNat)]
    rfl
  | cons v' vs =>
    simp only [compactItems, List.length_append, List.length_cons] at hfuel
    have hv := parseValue_compact v fuel (',' :: (compactItems (v' :: vs) ++ rest))
      (fun _ => ends_cons (by decide) (by decide)) (by omega)
    have hvs := parseItems_compact v' vs fuel rest (by omega)
    simp only [compactItems, List.append_assoc, List.cons_append, parseItems, hv, bind,
      Option.bind, skipBlank_cons (by decide : 32 < ','.toNat), hvs]
    rfl
termination_by fuel

theorem parseMembers_compact (m : List Char × Json) (ms : List (List Char × Json)) (fuel : Nat)
    (rest : List Char) (hfuel : (compactMembers (m :: ms)).length ≤ fuel) :
    parseMembers fuel (compactMembers (m :: ms) ++ rest) = some (m :: ms, rest) := by
  obtain ⟨k, v⟩ := m
  obtain ⟨fuel, rfl⟩ : ∃ f, fuel = f + 1 := ⟨fuel - 1, by
    obtain ⟨s, hs⟩ := compactMembers_head (k, v) ms
    rw [hs, List.length_cons] at hfuel
    omega⟩
  have hkey : ∀ s, skipBlank (printString k ++ ':' :: s) = '"' :: (printChars k ++ ':' :: s) :=
    fun _ => rfl
  cases ms with
  | nil =>
    simp only [compactMembers, List.length_append, List.length_cons] at hfuel
    have hv := parseValue_compact v fuel ('}' :: rest)
      (fun _ => ends_cons (by decide) (by decide)) (by omega)
    simp only [compactMembers, List.append_assoc, List.cons_append, List.nil_append, parseMembers,
      hkey, scanChar, if_true, bind, Option.bind, parseChars_print,
      skipBlank_cons (by decide : 32 < ':'.toNat), hv, skipBlank_cons (by decide : 32 < '}'.toNat)]
    rfl
  | cons m' ms =>
    simp only [compactMembers, List.length_append, List.length_cons] at hfuel
    have hv := parseValue_compact v fuel (',' :: (compactMembers (m' :: ms) ++ rest))
      (fun _ => ends_cons (by decide) (by decide)) (by omega)
    have hms := parseMembers_compact m' ms fuel rest (by omega)
    simp only [compactMembers, List.append_assoc, List.cons_append, parseMembers,
      hkey, scanChar, if_true, bind, Option.bind, parseChars_print,
      skipBlank_cons (by decide : 32 < ':'.toNat), hv, skipBlank_cons (by decide : 32 < ','.toNat),
      hms]
    rfl
termination_by fuel

end

theorem parse_compact (v : Json) : parse (compactValue v) = some v := by
  have h := parseValue_compact v ((compactValue v).length + 1) [] (fun _ => ends_nil) (by omega)
  rw [List.append_nil] at h
  rw [parse, h]
  rfl

/-- Plain text is printed as it is. -/
theorem printChars_plain {s : List Char} (h : s.all Json.plainChar = true) :
    printChars s = s ++ ['"'] := by
  induction s with
  | nil => rfl
  | cons c s ih =>
    simp only [List.all_cons, Bool.and_eq_true] at h
    obtain ⟨hc, hs⟩ := h
    have hquote : c ≠ '"' := by
      rintro rfl
      exact absurd hc (by decide)
    have hslash : c ≠ '\\' := by
      rintro rfl
      exact absurd hc (by decide)
    rw [printChars, ih hs, List.cons_append]
    · exact hquote
    · exact hslash

end RoundTrip

def printer : JsonPrinter := ⟨codec, compactValue⟩

theorem printer_lawful (printed : Json → Prop) : printer.LawfulOn printed where
  unformatted v _ := parse_compact v
  empty := by decide
  plain s hs := by
    have h := parse_compact (.array [.string s])
    have htext : compactValue (.array [.string s]) = '[' :: '"' :: (s ++ ['"', ']']) := by
      simp [compactValue, compactItems, printString, printChars_plain hs]
    rwa [htext] at h

end JsonText

end DHCPServer
