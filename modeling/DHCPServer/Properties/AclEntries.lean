import DHCPServer.Security.AclFile

namespace DHCPServer

/-- Text of bytes: two hexadecimal digits of either case for each, with a colon between them. -/
inductive Spells : List UInt8 → CString → Prop
  | last {b h l} (hh : hexValue h = some (b.toNat / 16)) (hl : hexValue l = some (b.toNat % 16)) :
      Spells [b] [h, l]
  | pair {b h l bs s} (hh : hexValue h = some (b.toNat / 16))
      (hl : hexValue l = some (b.toNat % 16)) (hs : Spells bs s) : Spells (b :: bs) (h :: l :: ':' :: s)

/-- Six two-digit hexadecimal groups with single colons between them. -/
def IsMacText (s : CString) : Prop := ∃ mac : Mac, Spells mac.data s

/-- The colons are the third of every three characters. -/
def ColonsInPlace (s : CString) : Prop := ∀ i < s.length, s[i]? = some ':' ↔ i % 3 = 2

/-- The entry is stored where it is the text of an address, and then some client's address is
compared equal to what is stored. -/
def EntryDecided (s : CString) : Prop :=
  (isStringValidMac s = true ↔ IsMacText s) ∧
    ((loadAclEntry (.string s)).isSome = true ↔ IsMacText s) ∧
    ∀ value, loadAclEntry (.string s) = some value →
      ∃ mac : Mac, strncmpEq value (uint8ArrayToMac mac) 17 = true

/-- The file lists the addresses, in this order and each as often as it stands there. -/
def ListsMacs (cjson : JsonCodec) (fs : FileSystem) (path : CString) (macs : List Mac) : Prop :=
  ∃ text config security texts, fs.read path = some text ∧ cjson.parse text = some config ∧
    config.getObjectItem "security".toList = some security ∧
    security.getObjectItem "acl_entries".toList = some (.array (texts.map .string)) ∧
    List.Forall₂ (fun (mac : Mac) s => Spells mac.data s) macs texts

section Digits

variable {c : Char} {d : Nat}

/-- A hexadecimal digit is one of the ASCII characters. -/
theorem hexValue_ascii (h : hexValue c = some d) : c.toNat < 128 := by
  have hle : ∀ {a b : Char}, a ≤ b → a.toNat ≤ b.toNat := fun h => h
  unfold hexValue at h
  split at h
  · rename_i hc
    have h9 := hle hc.2
    simp at h9
    omega
  · split at h
    · rename_i hc
      have hf := hle hc.2
      simp at hf
      omega
    · split at h
      · rename_i hc
        have hF := hle hc.2
        simp at hF
        omega
      · cases h

/-- What holds of the hexadecimal digits among the ASCII characters holds of all. -/
theorem hexValue_forall {P : Char → Nat → Prop}
    (hP : ∀ n < 128, ∀ d ∈ hexValue (Char.ofNat n), P (Char.ofNat n) d)
    (h : hexValue c = some d) : P c d := by
  have hc := hP c.toNat (hexValue_ascii h) d
  rw [Char.ofNat_toNat] at hc
  exact hc h

theorem toLower_hexDigit (h : hexValue c = some d) : c.toLower = Nat.digitChar d :=
  hexValue_forall (P := fun c d => c.toLower = Nat.digitChar d) (by decide +kernel) h

theorem hexValue_lt (h : hexValue c = some d) : d < 16 :=
  hexValue_forall (P := fun _ d => d < 16) (by decide +kernel) h

theorem isMacChar_hexDigit (h : hexValue c = some d) : isMacChar c = true ∧ c ≠ ':' :=
  hexValue_forall (P := fun c _ => isMacChar c = true ∧ c ≠ ':') (by decide +kernel) h

theorem isMacChar_ascii (h : isMacChar c = true) : c.toNat < 128 := by
  simp only [isMacChar, Bool.or_eq_true, Bool.and_eq_true, decide_eq_true_eq, beq_iff_eq] at h
  rcases h with (h | ⟨-, h⟩) | rfl
  · have hc := isDigit_bounds h
    omega
  · have hF : c.toUpper.toNat ≤ 70 := h
    unfold Char.toUpper at hF
    split at hF
    · rename_i hz
      have h122 : c.toNat ≤ 122 := hz.2
      omega
    · omega
  · decide

/-- The characters of the validator are the colon and the hexadecimal digits. -/
theorem isMacChar_iff : isMacChar c = true ↔ c = ':' ∨ (hexValue c).isSome = true := by
  have hsplit : ∀ n < 128, isMacChar (Char.ofNat n) = true →
      Char.ofNat n = ':' ∨ (hexValue (Char.ofNat n)).isSome = true := by decide +kernel
  constructor
  · intro h
    have hc := hsplit c.toNat (isMacChar_ascii h)
    rw [Char.ofNat_toNat] at hc
    exact hc h
  · rintro (rfl | h)
    · decide
    · obtain ⟨d, hd⟩ := Option.isSome_iff_exists.mp h
      exact (isMacChar_hexDigit hd).1

end Digits

section Grammar

variable {bs : List UInt8} {s : CString}

theorem Spells.length (h : Spells bs s) : s.length + 1 = 3 * bs.length := by
  induction h with
  | last => rfl
  | pair _ _ _ ih =>
    simp only [List.length_cons]
    omega

theorem Spells.chars (h : Spells bs s) : ∀ c ∈ s, isMacChar c = true := by
  have hdigits : ∀ {b : UInt8} {h l : Char}, hexValue h = some (b.toNat / 16) →
      hexValue l = some (b.toNat % 16) → ∀ c ∈ [h, l], isMacChar c = true := by
    intro b h l hh hl
    simp [(isMacChar_hexDigit hh).1, (isMacChar_hexDigit hl).1]
  induction h with
  | last hh hl => exact hdigits hh hl
  | @pair b h l bs s hh hl _ ih =>
    intro c hc
    rcases List.mem_append.mp (show c ∈ [h, l] ++ ':' :: s from hc) with hc | hc
    · exact hdigits hh hl c hc
    · rcases List.mem_cons.mp hc with rfl | hc
      · decide
      · exact ih c hc

/-- Two characters that are no colons keep the colons behind them in place. -/
theorem colonsInPlace_pair {h l : Char} (hh : h ≠ ':') (hl : l ≠ ':') :
    ColonsInPlace (h :: l :: ':' :: s) ↔ ColonsInPlace s := by
  unfold ColonsInPlace
  constructor
  · intro hc i hi
    have hi3 := hc (i + 3) (by simpa using hi)
    simpa using hi3
  · intro hc i hi
    match i with
    | 0 => simpa using hh
    | 1 => simpa using hl
    | 2 => simp
    | i + 3 =>
      have hs := hc i (by simpa using hi)
      simpa using hs

theorem Spells.colons (h : Spells bs s) : ColonsInPlace s := by
  induction h with
  | @last b h l hh hl =>
    have hne := (isMacChar_hexDigit hh).2
    have hne' := (isMacChar_hexDigit hl).2
    intro i hi
    match i with
    | 0 => simpa using hne
    | 1 => simpa using hne'
  | @pair b h l bs s hh hl _ ih =>
    have hne := (isMacChar_hexDigit hh).2
    have hne' := (isMacChar_hexDigit hl).2
    exact (colonsInPlace_pair hne hne').mpr ih

/-- In lower case the text is the one that is printed. -/
theorem Spells.lower (h : Spells bs s) : s.map Char.toLower = hexBytes bs := by
  have hdigits : ∀ {b : UInt8} {h l : Char}, hexValue h = some (b.toNat / 16) →
      hexValue l = some (b.toNat % 16) → [h.toLower, l.toLower] = hexText 2 b.toNat := by
    intro b h l hh hl
    have hhigh := Nat.mod_eq_of_lt (hexValue_lt hh)
    simp [hexText, hhigh, toLower_hexDigit hh, toLower_hexDigit hl]
  induction h with
  | last hh hl => exact hdigits hh hl
  | @pair b h l bs s hh hl hs ih =>
    cases bs with
    | nil => cases hs
    | cons b' bs =>
      rw [hexBytes, ← hdigits hh hl, ← ih]
      · rfl
      · simp

/-- Two characters of which none is a colon are the digits of a byte. -/
theorem exists_byte {h l : Char} (hh : isMacChar h = true) (hl : isMacChar l = true)
    (hne : h ≠ ':') (hne' : l ≠ ':') :
    ∃ b : UInt8, hexValue h = some (b.toNat / 16) ∧ hexValue l = some (b.toNat % 16) := by
  obtain ⟨d, hvalue⟩ := Option.isSome_iff_exists.mp ((isMacChar_iff.mp hh).resolve_left hne)
  obtain ⟨d', hvalue'⟩ := Option.isSome_iff_exists.mp ((isMacChar_iff.mp hl).resolve_left hne')
  have hd := hexValue_lt hvalue
  have hd' := hexValue_lt hvalue'
  refine ⟨UInt8.ofNat (16 * d + d'), ?_, ?_⟩
  · rw [hvalue, UInt8.toNat_ofNat']
    congr 1
    omega
  · rw [hvalue', UInt8.toNat_ofNat']
    congr 1
    omega

/-- Digits with the colons in place are the text of bytes. -/
theorem exists_spells (n : Nat) (hlen : s.length + 1 = 3 * (n + 1))
    (hchars : ∀ c ∈ s, isMacChar c = true) (hcolons : ColonsInPlace s) :
    ∃ bs, bs.length = n + 1 ∧ Spells bs s := by
  induction n generalizing s with
  | zero =>
    match s, hlen with
    | [h, l], _ =>
      have hne : h ≠ ':' := by simpa using hcolons 0 (by simp)
      have hne' : l ≠ ':' := by simpa using hcolons 1 (by simp)
      obtain ⟨b, hh, hl⟩ := exists_byte (hchars h (by simp)) (hchars l (by simp)) hne hne'
      exact ⟨[b], rfl, .last hh hl⟩
  | succ n ih =>
    match s, hlen with
    | h :: l :: c :: s, hlen =>
      have hne : h ≠ ':' := by simpa using hcolons 0 (by simp)
      have hne' : l ≠ ':' := by simpa using hcolons 1 (by simp)
      obtain rfl : c = ':' := by simpa using hcolons 2 (by simp)
      obtain ⟨b, hh, hl⟩ := exists_byte (hchars h (by simp)) (hchars l (by simp)) hne hne'
      obtain ⟨bs, hbs, hs⟩ := ih (s := s) (by simp only [List.length_cons] at hlen; omega)
        (fun c hc => hchars c (by simp [hc])) ((colonsInPlace_pair hne hne').mp hcolons)
      exact ⟨b :: bs, by rw [List.length_cons, hbs], .pair hh hl hs⟩
    | [a, b], hlen => exact absurd hlen (by simp only [List.length_cons, List.length_nil]; omega)
    | [a], hlen => exact absurd hlen (by simp only [List.length_cons, List.length_nil]; omega)
    | [], hlen => exact absurd hlen (by simp only [List.length_nil]; omega)

theorem exists_mac (h : bs.length = 6) : ∃ mac : Mac, mac.data = bs := by
  refine ⟨(Buffer.zero 6).write 0 bs, ?_⟩
  have htake := (Buffer.zero 6).take_data_write bs h.le
  rwa [List.take_of_length_le (by simp [h])] at htake

end Grammar

section Entry

variable {s : CString} {mac : Mac}

theorem Spells.isStringValidMac (h : Spells mac.data s) : isStringValidMac s = true := by
  have hlen := h.length
  rw [mac.length_data] at hlen
  rw [DHCPServer.isStringValidMac, Bool.and_eq_true, List.all_eq_true, beq_iff_eq]
  exact ⟨h.chars, by omega⟩

/-- The entry that is stored for a text of an address. -/
theorem Spells.lowerMac (h : Spells mac.data s) : lowerMac s = uint8ArrayToMac mac := by
  have hlen := h.length
  rw [mac.length_data] at hlen
  rw [lowerMac_of_length (by omega), h.lower, uint8ArrayToMac_eq]

/-- A validated text is the text of an address where its colons are in place. -/
theorem isMacText_iff (hvalid : isStringValidMac s = true) : IsMacText s ↔ ColonsInPlace s := by
  rw [isStringValidMac, Bool.and_eq_true, List.all_eq_true, beq_iff_eq] at hvalid
  constructor
  · rintro ⟨mac, h⟩
    exact h.colons
  · intro h
    obtain ⟨bs, hbs, hs⟩ := exists_spells 5 (by omega) hvalid.1 h
    obtain ⟨mac, rfl⟩ := exists_mac hbs
    exact ⟨mac, hs⟩

/-- Of 17 hexadecimal digits and colons, the colons are the third, sixth, ninth, twelfth and
fifteenth. -/
def EntryPunctuated (s : CString) : Prop :=
  s.length = 17 → (∀ c ∈ s, c = ':' ∨ (hexValue c).isSome = true) → ColonsInPlace s

theorem entryPunctuated_iff :
    EntryPunctuated s ↔ (isStringValidMac s = true → ColonsInPlace s) := by
  rw [isStringValidMac, Bool.and_eq_true, List.all_eq_true, beq_iff_eq]
  simp only [isMacChar_iff]
  constructor
  · intro h hvalid
    exact h hvalid.2 hvalid.1
  · intro h hlen hchars
    exact h ⟨hchars, hlen⟩

/-- The validator decides the grammar of the entries except for texts of 17 hexadecimal digits and
colons whose colons are elsewhere. -/
theorem acl_entry_decided_iff (s : CString) : EntryDecided s ↔ EntryPunctuated s := by
  rw [entryPunctuated_iff]
  constructor
  · intro h hvalid
    exact (isMacText_iff hvalid).mp (h.1.mp hvalid)
  · intro h
    have hgrammar : isStringValidMac s = true ↔ IsMacText s := by
      constructor
      · intro hvalid
        exact (isMacText_iff hvalid).mpr (h hvalid)
      · rintro ⟨mac, hmac⟩
        exact hmac.isStringValidMac
    refine ⟨hgrammar, loadAclEntry_isSome.trans hgrammar, ?_⟩
    intro value hvalue
    obtain ⟨hvalid, rfl⟩ := loadAclEntry_string.mp hvalue
    obtain ⟨mac, hmac⟩ := hgrammar.mp hvalid
    refine ⟨mac, ?_⟩
    rw [hmac.lowerMac]
    exact (strncmpEq_uint8ArrayToMac mac mac).mpr rfl

/-- Seventeen digits without a colon are stored. -/
theorem acl_entry_unpunctuated : ¬EntryDecided "aabbccddeeff00112".toList := by
  intro h
  obtain ⟨mac, hmac⟩ := h.1.mp (by decide)
  exact absurd ((hmac.colons 2 (by decide)).mpr rfl) (by decide)

end Entry

section Membership

variable {cjson : JsonCodec} {fs : FileSystem} {path : CString} {macs : List Mac}

/-- Texts of addresses are accepted, and what is stored for them are the printed addresses. -/
theorem spelled_entries {texts : List CString}
    (h : List.Forall₂ (fun (mac : Mac) s => Spells mac.data s) macs texts) :
    (∀ s ∈ texts, isStringValidMac s = true) ∧ texts.map lowerMac = macs.map uint8ArrayToMac := by
  induction h with
  | nil => simp
  | cons hmac _ ih =>
    refine ⟨?_, ?_⟩
    · intro s hs
      rcases List.mem_cons.mp hs with rfl | hs
      · exact hmac.isStringValidMac
      · exact ih.1 s hs
    · rw [List.map_cons, List.map_cons, hmac.lowerMac, ih.2]

/-- After a load of the file the entries are the printed addresses. -/
theorem ListsMacs.load (h : ListsMacs cjson fs path macs) (acl : Acl) :
    aclLoadAclEntries cjson fs acl path = (true, { acl with entries := macs.map uint8ArrayToMac }) := by
  obtain ⟨text, config, security, texts, hfile, hparse, hsecurity, hentries, hspell⟩ := h
  have hload : aclLoadConfigFile cjson fs path = some config := by
    rw [aclLoadConfigFile, hfile, Option.bind_some, hparse]
  obtain ⟨hvalid, hlower⟩ := spelled_entries hspell
  rw [aclLoadAclEntries, hload]
  simp only [hsecurity, hentries, Json.children, loadAclEntries_of_forall hvalid, List.nil_append,
    hlower]

/-- An enabled list with printed addresses tells the clients with one of them from the others. -/
theorem aclCheckClient_macs (acl : Acl) (henabled : acl.enabled = true)
    (hentries : acl.entries = macs.map uint8ArrayToMac) (mac : Mac) :
    aclCheckClient acl mac =
      if mac ∈ macs then if acl.isBlacklist then .deny else .allow
      else if acl.isBlacklist then .allow else .deny := by
  have hany : acl.entries.any (strncmpEq · (uint8ArrayToMac mac) 17) = decide (mac ∈ macs) := by
    rw [Bool.eq_iff_iff, List.any_eq_true, decide_eq_true_eq, hentries]
    constructor
    · rintro ⟨entry, hentry, hequal⟩
      obtain ⟨listed, hlisted, rfl⟩ := List.mem_map.mp hentry
      rwa [(strncmpEq_uint8ArrayToMac listed mac).mp hequal] at hlisted
    · intro hmac
      exact ⟨_, List.mem_map_of_mem hmac, (strncmpEq_uint8ArrayToMac mac mac).mpr rfl⟩
  simp [aclCheckClient, aclCheckClientStr, henabled, hany]

/-- A loaded list decides membership, whatever the order and the repetition of its entries. -/
theorem static_acl_membership (h : ListsMacs cjson fs path macs) (acl : Acl) :
    (aclLoadAclEntries cjson fs acl path).1 = true ∧
    (∀ chaddr : Buffer chaddrLen,
      let loaded := { (aclLoadAclEntries cjson fs acl path).2 with enabled := true }
      (aclCheckClient { loaded with isBlacklist := true } (chaddr.slice 0 6) = .deny ↔
        chaddr.slice 0 6 ∈ macs) ∧
      (aclCheckClient { loaded with isBlacklist := false } (chaddr.slice 0 6) = .allow ↔
        chaddr.slice 0 6 ∈ macs)) ∧
    ∀ fs' path' macs', ListsMacs cjson fs' path' macs' → (∀ mac, mac ∈ macs' ↔ mac ∈ macs) →
      ∀ mac, aclCheckClient (aclLoadAclEntries cjson fs' acl path').2 mac =
        aclCheckClient (aclLoadAclEntries cjson fs acl path).2 mac := by
  rw [h.load]
  refine ⟨rfl, ?_, ?_⟩
  · intro chaddr
    dsimp only
    rw [aclCheckClient_macs _ rfl (rfl : _ = macs.map uint8ArrayToMac), aclCheckClient_macs _ rfl (rfl : _ = macs.map uint8ArrayToMac)]
    by_cases hmem : chaddr.slice 0 6 ∈ macs
    · simp [hmem]
    · simp [hmem]
  · intro fs' path' macs' h' hsame mac
    rw [h'.load]
    cases henabled : acl.enabled with
    | false => simp [aclCheckClient, aclCheckClientStr]
    | true =>
      dsimp only
      rw [aclCheckClient_macs _ rfl (rfl : _ = macs'.map uint8ArrayToMac), aclCheckClient_macs _ rfl (rfl : _ = macs.map uint8ArrayToMac)]
      simp only [hsame]

/-- A file with one address in upper and lower case. -/
def mixedCaseDocument : Json :=
  .object [("security".toList,
    .object [("acl_entries".toList, .array [.string "0a:1B:2c:3D:4e:5F".toList])])]

def mixedCaseMac : Mac := (Buffer.zero 6).write 0 [0x0a, 0x1b, 0x2c, 0x3d, 0x4e, 0x5f]

theorem mixedCase_lists : ListsMacs JsonText.codec
    (fun _ => some (JsonText.codec.print mixedCaseDocument)) [] [mixedCaseMac] := by
  refine ⟨_, mixedCaseDocument, _, ["0a:1B:2c:3D:4e:5F".toList], rfl,
    (JsonText.codec_lawful fun _ => True).inverse mixedCaseDocument trivial, rfl, rfl, .cons ?_ .nil⟩
  have hdata : mixedCaseMac.data = [0x0a, 0x1b, 0x2c, 0x3d, 0x4e, 0x5f] := by decide +kernel
  rw [hdata]
  apply Spells.pair rfl rfl
  apply Spells.pair rfl rfl
  apply Spells.pair rfl rfl
  apply Spells.pair rfl rfl
  apply Spells.pair rfl rfl
  exact .last rfl rfl

/-- In blacklist mode the client with the address of the file is denied, another one is not. -/
theorem static_acl_mixedCase :
    let acl := (aclLoadAclEntries JsonText.codec
      (fun _ => some (JsonText.codec.print mixedCaseDocument)) ⟨[], true, true⟩ []).2
    aclCheckClient acl ((Buffer.zero chaddrLen).slice 0 6) ≠ .deny ∧
      aclCheckClient acl ((mixedCaseMac.slice 0 chaddrLen).slice 0 6) = .deny := by
  have h := (static_acl_membership mixedCase_lists ⟨[], true, true⟩).2.1
  rw [mixedCase_lists.load] at h ⊢
  refine ⟨?_, ?_⟩
  · apply mt (h _).1.mp
    decide +kernel
  · apply (h _).1.mpr
    decide +kernel

end Membership

end DHCPServer
