import DHCPServer.Lease.File
import DHCPServer.Security.Acl

namespace DHCPServer

/-- A hexadecimal digit or a colon, as `is_string_valid_mac` tests a character with `isdigit` and
`toupper` in the C locale. -/
def isMacChar (c : Char) : Bool :=
  c.isDigit || (decide ('A' ≤ c.toUpper) && decide (c.toUpper ≤ 'F')) || c == ':'

def isStringValidMac (s : CString) : Bool := s.all isMacChar && s.length == 17

/-- `tolower` of the first 17 characters. -/
def lowerMac (s : CString) : CString := (s.take 17).map Char.toLower ++ s.drop 17

/-- The text one pass of the loop of `ACL_load_acl_entries` stores, `none` if it ends the loop. -/
def loadAclEntry (entry : Json) : Option CString :=
  match entry.getStringValue with
  | none => none
  | some s => if isStringValidMac s then some (lowerMac s) else none

/-- The loop of `ACL_load_acl_entries`: whether it ran to its end, and the entries. -/
def loadAclEntries : List CString → List Json → Bool × List CString
  | entries, [] => (true, entries)
  | entries, entry :: rest =>
    match loadAclEntry entry with
    | none => (false, entries)
    | some value => loadAclEntries (entries ++ [value]) rest

section Loading

variable (cjson : JsonCodec) (fs : FileSystem)

/-- The static `load_config_file` of `acl.c`. -/
def aclLoadConfigFile (path : CString) : Option Json := (fs.read path).bind cjson.parse

/-- `ACL_load_acl_entries`; `true` stands for `ACL_OK`. Without a file, or without the list in it,
the entries stay as they were. -/
def aclLoadAclEntries (acl : Acl) (path : CString) : Bool × Acl :=
  match aclLoadConfigFile cjson fs path with
  | none => (true, acl)
  | some config =>
    match config.getObjectItem "security".toList with
    | none => (true, acl)
    | some security =>
      match security.getObjectItem "acl_entries".toList with
      | none => (true, acl)
      | some aclEntries =>
        let (loaded, entries) := loadAclEntries [] aclEntries.children
        (loaded, { acl with entries := entries })

end Loading

section Entries

variable {s value : CString} {entries : List CString} {entry : Json} {rest : List Json}

theorem loadAclEntry_string :
    loadAclEntry (.string s) = some value ↔ isStringValidMac s = true ∧ lowerMac s = value := by
  simp only [loadAclEntry, Json.getStringValue]
  split
  · rename_i h
    simp [h]
  · rename_i h
    simp [h]

theorem loadAclEntry_isSome :
    (loadAclEntry (.string s)).isSome = true ↔ isStringValidMac s = true := by
  rw [Option.isSome_iff_exists]
  simp only [loadAclEntry_string]
  constructor
  · rintro ⟨value, h, -⟩
    exact h
  · intro h
    exact ⟨_, h, rfl⟩

/-- Where every entry is accepted, the loop stores all of them in their order. -/
theorem loadAclEntries_of_forall {texts : List CString}
    (h : ∀ s ∈ texts, isStringValidMac s = true) (entries : List CString) :
    loadAclEntries entries (texts.map .string) = (true, entries ++ texts.map lowerMac) := by
  induction texts generalizing entries with
  | nil => simp [loadAclEntries]
  | cons s texts ih =>
    have hs := loadAclEntry_string.mpr ⟨h s (by simp), rfl⟩
    rw [List.map_cons, loadAclEntries, hs]
    dsimp only
    rw [ih fun s' hs' => h s' (List.mem_cons_of_mem _ hs')]
    simp

theorem lowerMac_of_length (h : s.length = 17) : lowerMac s = s.map Char.toLower := by
  rw [lowerMac, List.take_of_length_le h.le, List.drop_of_length_le h.le, List.append_nil]

end Entries

end DHCPServer
