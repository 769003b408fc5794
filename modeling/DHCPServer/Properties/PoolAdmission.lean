import DHCPServer.Math.Subnet
import DHCPServer.Pool.AddressPool

namespace DHCPServer

section Admission

variable {name : CString} {start «end» mask : UInt32}

theorem addressPoolNew_isSome : (addressPoolNew name start «end» mask).isSome = true ↔
    canRangeBeOnSubnet start «end» mask = true ∧ start < «end» := by
  unfold addressPoolNew
  by_cases hr : canRangeBeOnSubnet start «end» mask = true
  · by_cases hl : start < «end»
    · simp [hr, hl]
    · simp [hr, hl]
  · simp [hr]

/-- The admission test in terms of the ends of the subnet. -/
theorem canRangeBeOnSubnet_iff : canRangeBeOnSubnet start «end» mask = true ↔
    Subnet.network start mask + 1 ≤ start ∧ «end» ≤ Subnet.broadcast start mask - 1 := by
  rw [canRangeBeOnSubnet, Bool.and_eq_true, decide_eq_true_eq, decide_eq_true_eq,
    Subnet.broadcast_eq_add, Subnet.network]

/-- The usable addresses of a subnet are those between its first and its last. -/
structure InsideSubnet (start «end» mask : UInt32) : Prop where
  sameSubnet : Subnet.network start mask = Subnet.network «end» mask
  notNetwork : start ≠ Subnet.network start mask
  notBroadcast : «end» ≠ Subnet.broadcast «end» mask

/-- With a subnet of one address the sum wraps for the highest start alone, and nothing lies
behind that one. -/
theorem canRange_single (hl : start < «end») :
    canRangeBeOnSubnet start «end» (Subnet.maskOfLength 32) = false := by
  rw [Bool.eq_false_iff]
  intro h
  obtain ⟨hs, -⟩ := canRangeBeOnSubnet_iff.mp h
  have hnet := Subnet.network_toNat start (le_refl 32)
  have hmax := «end».toNat_lt
  rw [UInt32.lt_iff_toNat_lt] at hl
  rw [UInt32.le_iff_toNat_le, UInt32.toNat_add, hnet, UInt32.toNat_one] at hs
  omega

/-- Where a subnet has more than one address neither the sum nor the difference wraps. -/
theorem canRange_toNat {n : Nat} (h : n < 32) :
    canRangeBeOnSubnet start «end» (Subnet.maskOfLength n) = true ↔
      start.toNat / 2 ^ (32 - n) * 2 ^ (32 - n) < start.toNat ∧
      «end».toNat + 1 < (start.toNat / 2 ^ (32 - n) + 1) * 2 ^ (32 - n) := by
  have hnet := Subnet.network_toNat start h.le
  have hbr := Subnet.broadcast_toNat start h.le
  have hnetLt := (Subnet.network start (Subnet.maskOfLength n)).toNat_lt
  have hbrLt := (Subnet.broadcast start (Subnet.maskOfLength n)).toNat_lt
  have hsize : 2 ≤ 2 ^ (32 - n) := by
    calc 2 = 2 ^ 1 := rfl
      _ ≤ 2 ^ (32 - n) := Nat.pow_le_pow_right (by decide) (by omega)
  have hone : (1 : UInt32) ≤ Subnet.broadcast start (Subnet.maskOfLength n) := by
    rw [UInt32.le_iff_toNat_le, hbr, UInt32.toNat_one]
    omega
  rw [canRangeBeOnSubnet_iff, UInt32.le_iff_toNat_le, UInt32.le_iff_toNat_le, UInt32.toNat_add,
    UInt32.toNat_sub_of_le _ _ hone, hnet, hbr, UInt32.toNat_one, add_mul, one_mul,
    Nat.mod_eq_of_lt (by omega)]
  omega

/-- The conditions on a range in terms of the number of its subnet. -/
theorem insideSubnet_toNat {n : Nat} (h : n ≤ 32) :
    InsideSubnet start «end» (Subnet.maskOfLength n) ↔
      start.toNat / 2 ^ (32 - n) = «end».toNat / 2 ^ (32 - n) ∧
      start.toNat ≠ start.toNat / 2 ^ (32 - n) * 2 ^ (32 - n) ∧
      «end».toNat ≠ «end».toNat / 2 ^ (32 - n) * 2 ^ (32 - n) + (2 ^ (32 - n) - 1) := by
  have hparts : InsideSubnet start «end» (Subnet.maskOfLength n) ↔
      Subnet.network start (Subnet.maskOfLength n) = Subnet.network «end» (Subnet.maskOfLength n) ∧
      start ≠ Subnet.network start (Subnet.maskOfLength n) ∧
      «end» ≠ Subnet.broadcast «end» (Subnet.maskOfLength n) :=
    ⟨fun h => ⟨h.1, h.2, h.3⟩, fun h => ⟨h.1, h.2.1, h.2.2⟩⟩
  rw [hparts, Subnet.same_network_iff _ _ h, Ne, Ne, ← UInt32.toNat_inj, ← UInt32.toNat_inj,
    Subnet.network_toNat _ h, Subnet.broadcast_toNat _ h]

/-- A pool is made for exactly the ranges of more than one address inside one subnet that leave
out its network and its broadcast address, for every length of the mask. -/
theorem addressPoolNew_accepts_iff (name : CString) (start «end» : UInt32) (n : Nat) (h : n ≤ 32) :
    (addressPoolNew name start «end» (Subnet.maskOfLength n)).isSome = true ↔
      start < «end» ∧ InsideSubnet start «end» (Subnet.maskOfLength n) := by
  rw [addressPoolNew_isSome, and_comm]
  refine and_congr_right fun hl => ?_
  rw [insideSubnet_toNat h]
  rcases h.lt_or_eq with hlt | rfl
  · rw [canRange_toNat hlt]
    rw [UInt32.lt_iff_toNat_lt] at hl
    have hpos : 0 < 2 ^ (32 - n) := Nat.two_pow_pos _
    generalize 2 ^ (32 - n) = b at hpos ⊢
    have hs := Nat.div_mul_le_self start.toNat b
    have he := Nat.lt_div_mul_add hpos (a := «end».toNat)
    rw [add_mul, one_mul]
    constructor
    · intro ⟨hnet, hbr⟩
      -- the end lies behind the start and before the end of the start's subnet
      have hsame : «end».toNat / b = start.toNat / b := by
        apply Nat.div_eq_of_lt_le
        · omega
        · rw [add_mul, one_mul]
          omega
      rw [hsame]
      exact ⟨rfl, by omega, by omega⟩
    · intro ⟨hsame, hnet, hbr⟩
      rw [← hsame] at hbr he
      exact ⟨by omega, by omega⟩
  · rw [canRange_single hl]
    simp

/-- All addresses of a network of 256 but its first and its last. -/
theorem class_c_accepted :
    (addressPoolNew [] 0xc0a80101 0xc0a801fe (Subnet.maskOfLength 24)).isSome = true :=
  (addressPoolNew_accepts_iff [] 0xc0a80101 0xc0a801fe 24 (by decide)).mpr
    ⟨by decide, by decide, by decide, by decide⟩

example : addressPoolNew [] 0xc0a80100 0xc0a801fe (Subnet.maskOfLength 24) = none := by decide

end Admission

section Size

variable {pool : AddressPool}

/-- The bitmap has a bit for every address of the pool, and every access to it is inside. -/
structure BitmapFits (pool : AddressPool) : Prop where
  bytes : pool.endAddress.toNat - pool.startAddress.toNat + 1 ≤
    8 * (poolRange pool.startAddress pool.endAddress).toNat
  index : ∀ x, addressBelongsToPool pool x = true →
    ((x - pool.startAddress) / 8).toNat < pool.leasesBm.length

theorem bitmapFits_iff_covered : BitmapFits pool ↔ pool.Covered := by
  constructor
  · intro h
    rw [AddressPool.Covered, pool.bitmapSize]
    exact h.bytes
  · intro h
    refine ⟨by rwa [AddressPool.Covered, pool.bitmapSize] at h, ?_⟩
    intro x hx
    have hb := AddressPool.belongs_iff.mp hx
    have hn := AddressPool.number_eq hx
    rw [AddressPool.Covered] at h
    rw [(AddressPool.index_eq _).1]
    rw [AddressPool.number] at hn
    omega

/-- The size of the bitmap of a pool that is made is right unless the range is so large that the
rounding wraps. -/
theorem bitmap_fits_iff (name : CString) (start «end» mask : UInt32) (pool : AddressPool)
    (h : addressPoolNew name start «end» mask = some pool) :
    BitmapFits pool ↔ «end».toNat - start.toNat + 8 < 2 ^ 32 := by
  obtain ⟨hshape, -, -⟩ := AddressPool.addressPoolNew_eq_some h
  simp only [AddressPool.shape, Prod.mk.injEq] at hshape
  rw [bitmapFits_iff_covered, AddressPool.covered_iff, hshape.2.1, hshape.2.2.1]

/-- The private network of 2 ^ 24 addresses has a bit for each of them. -/
theorem class_a_fits : ∃ pool, addressPoolNew [] 0x0a000001 0x0afffffe 0xff000000 = some pool ∧
    BitmapFits pool := by
  obtain ⟨pool, hpool⟩ := Option.isSome_iff_exists.mp (addressPoolNew_isSome.mpr
    ⟨by decide, by decide⟩ : (addressPoolNew [] 0x0a000001 0x0afffffe 0xff000000).isSome = true)
  exact ⟨pool, hpool, (bitmap_fits_iff _ _ _ _ pool hpool).mpr (by decide)⟩

/-- From 0.0.0.2 to 255.255.255.253 on the mask 0.0.0.1 the bitmap has no byte at all. -/
theorem widest_range_without_bitmap : ¬∀ name start «end» mask pool,
    addressPoolNew name start «end» mask = some pool → BitmapFits pool := by
  intro h
  obtain ⟨pool, hpool⟩ := Option.isSome_iff_exists.mp (addressPoolNew_isSome.mpr
    ⟨by decide, by decide⟩ : (addressPoolNew [] 2 0xfffffffd 1).isSome = true)
  have hfits := h _ _ _ _ pool hpool
  rw [bitmapFits_iff_covered, AddressPool.covered_iff] at hfits
  obtain ⟨hshape, -, -⟩ := AddressPool.addressPoolNew_eq_some hpool
  simp only [AddressPool.shape, Prod.mk.injEq] at hshape
  rw [hshape.2.1, hshape.2.2.1] at hfits
  exact absurd hfits (by decide)

end Size

end DHCPServer
