import DHCPServer.Framework.Text
import DHCPServer.Framework.Buffer
import DHCPServer.Pool.AddressPool

namespace DHCPServer

def uint32ToIpv4Address (a : UInt32) : CString :=
  decimal ((a >>> 24) &&& 0xff).toNat ++ '.' :: (decimal ((a >>> 16) &&& 0xff).toNat ++
    '.' :: (decimal ((a >>> 8) &&& 0xff).toNat ++ '.' :: decimal (a &&& 0xff).toNat))

/-- The four numbers of `sscanf(s, "%u.%u.%u.%u", ..)`, `none` if fewer are matched. Text behind
the last number is not looked at. -/
def scanQuad (s : CString) : Option (UInt32 × UInt32 × UInt32 × UInt32) := do
  let (a, s) ← scanUnsigned s
  let s ← scanChar '.' s
  let (b, s) ← scanUnsigned s
  let s ← scanChar '.' s
  let (c, s) ← scanUnsigned s
  let s ← scanChar '.' s
  let (d, _) ← scanUnsigned s
  return (a, b, c, d)

/-- `ipv4_address_to_uint32`: 0 for text that is not matched. -/
def ipv4AddressToUint32 (s : CString) : UInt32 :=
  match scanQuad s with
  | none => 0
  | some (a, b, c, d) => (a <<< 24) ||| (b <<< 16) ||| (c <<< 8) ||| d

/-- Bytes in two hexadecimal digits each, with colons between them. -/
def hexBytes : List UInt8 → CString
  | [] => []
  | [b] => hexText 2 b.toNat
  | b :: bs => hexText 2 b.toNat ++ ':' :: hexBytes bs

/-- `sscanf` with `count` fields `%02x` between colons, the numbers cut to bytes. -/
def scanBytes : Nat → CString → Option (List UInt8)
  | 0, _ => some []
  | 1, s => do
    let (n, _) ← scanHex 2 s
    return [UInt8.ofInt n]
  | count + 2, s => do
    let (n, s) ← scanHex 2 s
    let s ← scanChar ':' s
    let bs ← scanBytes (count + 1) s
    return UInt8.ofInt n :: bs

/-- The bytes that `sscanf` stores from fields `%02hhx` between colons: all before the first field
that is not matched. -/
def scanBytesStored : Nat → CString → List UInt8
  | 0, _ => []
  | count + 1, s =>
    match scanHex 2 s with
    | none => []
    | some (n, s) => UInt8.ofInt n :: ((scanChar ':' s).map (scanBytesStored count)).getD []

/-- `mac_to_uint8_array`: bytes that are not matched stay in the array. -/
def macToUint8Array (mac : CString) (array : Buffer 6) : Buffer 6 := array.write 0 (scanBytesStored 6 mac)

section Quad

variable {rest : CString}

theorem noDigit_dot : NoDigit ('.' :: rest) := by
  intro c hc
  obtain rfl : '.' = c := by simpa using hc
  decide

theorem noDigit_nil : NoDigit [] := by
  intro c hc
  cases hc

theorem or_of_lt {x y k : Nat} (h : y < 2 ^ k) : x * 2 ^ k ||| y = x * 2 ^ k + y := by
  rw [← Nat.shiftLeft_eq, Nat.shiftLeft_add_eq_or_of_lt h]

theorem toNat_and_byte (x : UInt32) : (x &&& 0xff).toNat = x.toNat % 256 := by
  rw [UInt32.toNat_and]
  exact Nat.and_two_pow_sub_one_eq_mod x.toNat 8

/-- Four bytes joined by shifts are their sum. -/
theorem toNat_quad {a b c d : UInt32} (ha : a.toNat < 256) (hb : b.toNat < 256)
    (hc : c.toNat < 256) (hd : d.toNat < 256) :
    ((a <<< 24) ||| (b <<< 16) ||| (c <<< 8) ||| d).toNat =
      a.toNat * 2 ^ 24 + b.toNat * 2 ^ 16 + c.toNat * 2 ^ 8 + d.toNat := by
  have hshift : ∀ (x k : UInt32), x.toNat * 2 ^ (k.toNat % 32) < 2 ^ 32 →
      (x <<< k).toNat = x.toNat * 2 ^ (k.toNat % 32) := by
    intro x k h
    rw [UInt32.toNat_shiftLeft, Nat.shiftLeft_eq, Nat.mod_eq_of_lt h]
  have h24 : (a <<< 24).toNat = a.toNat * 2 ^ 24 := by
    apply hshift a 24
    simp only [UInt32.reduceToNat, Nat.reduceMod, Nat.reducePow]
    omega
  have h16 : (b <<< 16).toNat = b.toNat * 2 ^ 16 := by
    apply hshift b 16
    simp only [UInt32.reduceToNat, Nat.reduceMod, Nat.reducePow]
    omega
  have h8 : (c <<< 8).toNat = c.toNat * 2 ^ 8 := by
    apply hshift c 8
    simp only [UInt32.reduceToNat, Nat.reduceMod, Nat.reducePow]
    omega
  have hab : a.toNat * 2 ^ 24 ||| b.toNat * 2 ^ 16 = (a.toNat * 2 ^ 8 + b.toNat) * 2 ^ 16 := by
    rw [or_of_lt (by omega)]
    omega
  have habc : (a.toNat * 2 ^ 8 + b.toNat) * 2 ^ 16 ||| c.toNat * 2 ^ 8 =
      (a.toNat * 2 ^ 16 + b.toNat * 2 ^ 8 + c.toNat) * 2 ^ 8 := by
    rw [or_of_lt (by omega)]
    omega
  rw [UInt32.toNat_or, UInt32.toNat_or, UInt32.toNat_or, h24, h16, h8, hab, habc,
    or_of_lt (by omega)]
  omega

theorem quad_join (a : UInt32) :
    (((a >>> 24) &&& 0xff) <<< 24) ||| (((a >>> 16) &&& 0xff) <<< 16) |||
      (((a >>> 8) &&& 0xff) <<< 8) ||| (a &&& 0xff) = a := by
  have hlt : ∀ x : UInt32, (x &&& 0xff).toNat < 256 := by
    intro x
    rw [toNat_and_byte]
    omega
  have hx := a.toNat_lt
  apply UInt32.toNat_inj.mp
  rw [toNat_quad (hlt _) (hlt _) (hlt _) (hlt _)]
  simp only [toNat_and_byte, UInt32.toNat_shiftRight, UInt32.reduceToNat, Nat.reduceMod,
    Nat.shiftRight_eq_div_pow, Nat.reducePow]
  omega

/-- Dotted text of an address reads back as the address. -/
theorem ipv4AddressToUint32_uint32ToIpv4Address (a : UInt32) :
    ipv4AddressToUint32 (uint32ToIpv4Address a) = a := by
  have hread : ∀ (x : UInt32) (s : CString), NoDigit s →
      scanUnsigned (decimal (x &&& 0xff).toNat ++ s) = some (x &&& 0xff, s) := by
    intro x s hs
    have hlt : (x &&& 0xff).toNat < 256 := by
      rw [toNat_and_byte]
      omega
    rw [scanUnsigned_decimal (by omega) hs, UInt32.ofNat_toNat]
  have hlast := hread a [] noDigit_nil
  rw [List.append_nil] at hlast
  have hquad : scanQuad (uint32ToIpv4Address a) = some ((a >>> 24) &&& 0xff, (a >>> 16) &&& 0xff,
      (a >>> 8) &&& 0xff, a &&& 0xff) := by
    simp only [scanQuad, uint32ToIpv4Address, hread _ _ noDigit_dot, hlast, scanChar, if_true,
      bind, Option.bind, pure]
  rw [ipv4AddressToUint32, hquad]
  exact quad_join a

end Quad

section Bytes

theorem length_hexBytes (b : UInt8) (bs : List UInt8) :
    (hexBytes (b :: bs)).length = 3 * bs.length + 2 := by
  induction bs generalizing b with
  | nil => simp [hexBytes, length_hexText]
  | cons b' bs ih =>
    rw [hexBytes]
    · simp [ih, length_hexText]
      omega
    · simp

/-- Bytes printed in hexadecimal are read back. -/
theorem scanBytes_hexBytes (bs : List UInt8) : scanBytes bs.length (hexBytes bs) = some bs := by
  have hread : ∀ (b : UInt8) (s : CString),
      scanHex 2 (hexText 2 b.toNat ++ s) = some ((b.toNat : Int), s) := by
    intro b s
    have hb := b.toNat_lt
    exact scanHex_hexText (by decide) (by omega)
  have hbyte : ∀ b : UInt8, UInt8.ofInt (b.toNat : Int) = b := by
    intro b
    have hmod : ((b.toNat : Int) % 2 ^ 8).toNat = b.toNat := by
      have hb := b.toNat_lt
      omega
    rw [UInt8.ofInt, hmod, UInt8.ofNat_toNat]
  induction bs with
  | nil => rfl
  | cons b bs ih =>
    cases bs with
    | nil =>
      have h := hread b []
      rw [List.append_nil] at h
      simp only [List.length_singleton, scanBytes, hexBytes, h, bind, Option.bind, pure, hbyte]
    | cons b' bs =>
      simp only [List.length_cons] at ih
      simp only [List.length_cons, scanBytes, hexBytes, hread, scanChar, if_true, bind,
        Option.bind, pure, hbyte, ih]

theorem hexBytes_inj {bs bs' : List UInt8} (hlen : bs.length = bs'.length)
    (h : hexBytes bs = hexBytes bs') : bs = bs' := by
  have hread := scanBytes_hexBytes bs
  rw [h, hlen, scanBytes_hexBytes] at hread
  exact (Option.some.inj hread).symm

/-- What is read as a whole is stored as a whole. -/
theorem scanBytesStored_eq {count : Nat} {s : CString} {bytes : List UInt8}
    (h : scanBytes count s = some bytes) : scanBytesStored count s = bytes := by
  induction count generalizing s bytes with
  | zero => simpa [scanBytes, scanBytesStored] using h
  | succ count ih =>
    cases count with
    | zero =>
      obtain ⟨⟨n, rest⟩, hn, h⟩ := Option.bind_eq_some_iff.mp h
      obtain rfl := Option.some.inj h
      simp only [scanBytesStored, hn]
      cases scanChar ':' rest <;> rfl
    | succ count =>
      obtain ⟨⟨n, rest⟩, hn, h⟩ := Option.bind_eq_some_iff.mp h
      obtain ⟨rest', hcolon, h⟩ := Option.bind_eq_some_iff.mp h
      obtain ⟨bytes', hbytes, h⟩ := Option.bind_eq_some_iff.mp h
      obtain rfl := Option.some.inj h
      rw [scanBytesStored]
      simp only [hn, hcolon, Option.map_some, Option.getD_some, ih hbytes]

theorem macToUint8Array_hexBytes (mac array : Buffer 6) :
    macToUint8Array (hexBytes mac.data) array = mac := by
  have hread := scanBytes_hexBytes mac.data
  rw [Buffer.length_data] at hread
  rw [macToUint8Array, scanBytesStored_eq hread]
  apply Buffer.ext_get
  intro i hi
  rw [Buffer.get_write _ _ _ _ hi, if_pos (by simpa using hi), Nat.sub_zero, Buffer.getD_data]

end Bytes

end DHCPServer
