import DHCPServer.Framework.Fitting
import DHCPServer.Packet.Codec

namespace DHCPServer

/-- The bytes that an option takes on the wire. -/
def optionSize (o : DhcpOption) : Nat := 2 + o.lenght.toNat

/-- The indexes of the options field that the loop of `dhcp_options_serialize` writes, with `bytes`
bytes written before. -/
def bytesWritten : List DhcpOption → Nat → List Nat
  | [], bytes => [bytes]
  | o :: os, bytes =>
    if bytes + 2 + o.lenght.toNat > packetOptionsSize then [bytes]
    else (List.range (optionSize o)).map (bytes + ·) ++
      bytesWritten os (bytes + 2 + o.lenght.toNat)

/-- `kept` is the longest part of the options from the front on that fits into the field. -/
structure LongestFitting (options kept : List DhcpOption) : Prop where
  front : kept <+: options
  fits : wireSize kept ≤ packetOptionsSize
  longest : ∀ p, p <+: options → wireSize p ≤ packetOptionsSize → p <+: kept

/-- What serialisation leaves in the field: the options `kept`, the END mark behind them, and
nothing written behind index 312. -/
structure Serialises (options kept : List DhcpOption) (raw : Buffer optionsFieldSize) : Prop where
  inside : ∀ k ∈ bytesWritten options 0, k ≤ packetOptionsSize
  untouched : ∀ k, k ∉ bytesWritten options 0 →
    (dhcpOptionsSerialize options raw).2.get k = raw.get k
  terminated : (dhcpOptionsSerialize options raw).2.get (wireSize kept) = Tag.endMark
  status : (dhcpOptionsSerialize options raw).1 = true ↔ wireSize options ≤ packetOptionsSize
  parsed : ∃ parsed, dhcpOptionParse (dhcpOptionsSerialize options raw).2 = .ok parsed ∧
    List.Forall₂ SameOption kept parsed

section Serialise

variable {options kept : List DhcpOption} {bytes : Nat} {raw : Buffer optionsFieldSize}

theorem fitting_longestFitting (options : List DhcpOption) :
    LongestFitting options (fitting optionSize packetOptionsSize options) :=
  ⟨fitting_front _ _, fitting_fits _ _, fun _ hp hfit => fitting_longest hp hfit⟩

/-- What does not fit leaves the field as if the list had ended before it. -/
theorem serializeFrom_fitting (hb : bytes ≤ packetOptionsSize) :
    (serializeFrom options bytes raw).2 =
      (serializeFrom (fitting optionSize (packetOptionsSize - bytes) options) bytes raw).2 := by
  induction options generalizing bytes raw with
  | nil => rfl
  | cons o os ih =>
    rw [fitting, optionSize]
    by_cases hfit : bytes + 2 + o.lenght.toNat > packetOptionsSize
    · have hstop : serializeFrom (o :: os) bytes raw = (false, raw.write bytes [Tag.endMark]) := by
        rw [serializeFrom, if_pos hfit]
      rw [if_neg (by omega), hstop]
      rfl
    · have hroom : packetOptionsSize - bytes - (2 + o.lenght.toNat) =
          packetOptionsSize - (bytes + 2 + o.lenght.toNat) := by omega
      rw [if_pos (by omega), serializeFrom, if_neg hfit, serializeFrom, if_neg hfit, ih (by omega),
        hroom]

theorem bytesWritten_inside (hb : bytes ≤ packetOptionsSize) :
    ∀ k ∈ bytesWritten options bytes, k ≤ packetOptionsSize := by
  induction options generalizing bytes with
  | nil => simpa [bytesWritten] using hb
  | cons o os ih =>
    intro k hk
    rw [bytesWritten] at hk
    by_cases hfit : bytes + 2 + o.lenght.toNat > packetOptionsSize
    · rw [if_pos hfit, List.mem_singleton] at hk
      omega
    · rw [if_neg hfit, List.mem_append, List.mem_map] at hk
      rcases hk with ⟨j, hj, rfl⟩ | hk
      · rw [List.mem_range, optionSize] at hj
        omega
      · exact ih (by omega) k hk

/-- The bytes at all other indexes stay as they are. -/
theorem bytesWritten_untouched (hl : ∀ o ∈ options, o.lenght.toNat ≤ optionMaxLenght) {k : Nat}
    (hk : k ∉ bytesWritten options bytes) :
    (serializeFrom options bytes raw).2.get k = raw.get k := by
  induction options generalizing bytes raw with
  | nil =>
    rw [bytesWritten, List.mem_singleton] at hk
    apply Buffer.get_write_out
    simp
    omega
  | cons o os ih =>
    rw [bytesWritten] at hk
    rw [serializeFrom]
    by_cases hfit : bytes + 2 + o.lenght.toNat > packetOptionsSize
    · rw [if_pos hfit, List.mem_singleton] at hk
      rw [if_pos hfit]
      apply Buffer.get_write_out
      simp
      omega
    · rw [if_neg hfit, List.mem_append, not_or] at hk
      rw [if_neg hfit, ih (fun o ho => hl o (List.mem_cons_of_mem _ ho)) hk.2]
      apply Buffer.get_write_out
      have hlen := length_serializeOptionValue (hl o List.mem_cons_self)
      have hout : ¬(bytes ≤ k ∧ k < bytes + optionSize o) := by
        intro hin
        apply hk.1
        rw [List.mem_map]
        exact ⟨k - bytes, by rw [List.mem_range]; omega, by omega⟩
      rw [optionSize] at hout
      simp [hlen]
      omega

/-- Options from the front of a list that can be sent can be sent. -/
theorem Sendable.front (hs : Sendable options) (h : kept <+: options) : Sendable kept where
  tags o ho := hs.tags o (h.subset ho)
  lengths o ho := hs.lengths o (h.subset ho)
  distinct := hs.distinct.sublist (h.map DhcpOption.tag).sublist

/-- Serialising canonical options of any total size writes the longest part of the list from its
front that fits, which is what a parse of the field gives back. -/
theorem serialise_longest_fitting (options : List DhcpOption) (raw : Buffer optionsFieldSize)
    (hdistinct : (options.map DhcpOption.tag).Nodup)
    (htags : ∀ o ∈ options, 1 ≤ o.tag.toNat ∧ o.tag.toNat ≤ 254)
    (hcanon : ∀ o ∈ options, o.Canonical) :
    ∃ kept, LongestFitting options kept ∧ Serialises options kept raw := by
  have hs : Sendable options :=
    ⟨fun o ho => tag_ne_marks (htags o ho), fun o ho => (hcanon o ho).lenght, hdistinct⟩
  have hkept := fitting_longestFitting options
  have hfield : (dhcpOptionsSerialize options raw).2 =
      (serializeFrom (fitting optionSize packetOptionsSize options) 0 raw).2 :=
    serializeFrom_fitting (Nat.zero_le _)
  generalize fitting optionSize packetOptionsSize options = kept at hkept hfield
  have hsk := hs.front hkept.front
  have hfit : 0 + wireSize kept ≤ packetOptionsSize := by
    rw [Nat.zero_add]
    exact hkept.fits
  refine ⟨kept, hkept, ?_⟩
  constructor
  case inside => exact bytesWritten_inside (Nat.zero_le _)
  case untouched => exact fun k hk => bytesWritten_untouched hs.lengths hk
  case terminated =>
    rw [hfield]
    have hend : (serializeFrom kept 0 raw).2.get (0 + wireSize kept) = Tag.endMark :=
      serializeFrom_end hfit
    rwa [Nat.zero_add] at hend
  case status =>
    constructor
    · intro hok
      have hall := fits_of_serializeFrom (Nat.zero_le _) hok
      omega
    · intro hall
      exact serializeFrom_fits (by omega) raw
  case parsed =>
    rw [hfield]
    refine ⟨_, parse_of_holds hsk (serializeFrom_holds hsk.lengths hfit) hkept.fits, ?_⟩
    rw [List.forall₂_map_right_iff]
    exact List.forall₂_same.mpr fun o ho => (hcanon o (hkept.front.subset ho)).sameOption

/-- A host name that does not fit behind the client identifier, and an address that would. -/
def oversizedOptions : List DhcpOption :=
  [dhcpOptionNewValues 53 1 [2], dhcpOptionNewValues 61 253 (List.replicate 253 7),
    dhcpOptionNewValues 12 60 (List.replicate 60 97), dhcpOptionNewValues 54 4 [1, 0, 168, 192]]

theorem oversizedOptions_serialised : packetOptionsSize < wireSize oversizedOptions ∧
    ∃ kept, LongestFitting oversizedOptions kept ∧
      Serialises oversizedOptions kept (Buffer.zero optionsFieldSize) :=
  ⟨by decide +kernel, serialise_longest_fitting oversizedOptions (Buffer.zero optionsFieldSize)
    (by decide +kernel) (by decide +kernel) (by decide +kernel)⟩

end Serialise

end DHCPServer
