import Mathlib.Tactic

namespace DHCPServer

namespace Subnet

/-- The contiguous mask with `n` leading ones. -/
def maskOfLength (n : Nat) : UInt32 := UInt32.ofNat (2 ^ 32 - 2 ^ (32 - n))

/-- The first address of the subnet of an address. -/
def network (address mask : UInt32) : UInt32 := address &&& mask

/-- The last address of the subnet of an address. -/
def broadcast (address mask : UInt32) : UInt32 := address ||| ~~~mask

theorem maskOfLength_toNat (n : Nat) : (maskOfLength n).toNat = 2 ^ 32 - 2 ^ (32 - n) := by
  have hpos : 0 < 2 ^ (32 - n) := Nat.two_pow_pos _
  rw [maskOfLength, UInt32.toNat_ofNat', Nat.mod_eq_of_lt (by omega)]

/-- Masking rounds down to a multiple of the size of the subnet. -/
theorem network_toNat (x : UInt32) {n : Nat} (h : n ≤ 32) :
    (network x (maskOfLength n)).toNat = x.toNat / 2 ^ (32 - n) * 2 ^ (32 - n) := by
  rw [network, UInt32.toNat_and, maskOfLength_toNat]
  obtain ⟨k, hk, rfl⟩ : ∃ k ≤ 32, n = 32 - k := ⟨32 - n, by omega, by omega⟩
  have hexp : 32 - (32 - k) = k := by omega
  have hmask : 2 ^ 32 - 2 ^ k = (2 ^ (32 - k) - 1) * 2 ^ k := by
    rw [Nat.sub_mul, one_mul, ← pow_add, Nat.sub_add_cancel hk]
  rw [hexp, hmask]
  apply Nat.eq_of_testBit_eq
  intro i
  rw [Nat.testBit_and, Nat.testBit_mul_two_pow, Nat.testBit_mul_two_pow,
    Nat.testBit_two_pow_sub_one, Nat.testBit_div_two_pow]
  by_cases hi : k ≤ i
  · rw [Nat.sub_add_cancel hi]
    by_cases hlt : i < 32
    · simp [hi, show i - k < 32 - k by omega]
    · have hx : x.toNat.testBit i = false := Nat.testBit_lt_two_pow
        (lt_of_lt_of_le x.toNat_lt (Nat.pow_le_pow_right (by decide) (by omega)))
      simp [hx]
  · simp [hi]

theorem not_maskOfLength_toNat (n : Nat) :
    (~~~maskOfLength n).toNat = 2 ^ (32 - n) - 1 := by
  have hpos : 0 < 2 ^ (32 - n) := Nat.two_pow_pos _
  have hle : 2 ^ (32 - n) ≤ 2 ^ 32 := Nat.pow_le_pow_right (by decide) (by omega)
  rw [UInt32.toNat_not, maskOfLength_toNat]
  simp only [UInt32.size]
  omega

/-- An address and the complement of its mask meet in no bit of the network part. -/
theorem broadcast_eq_or (x mask : UInt32) : broadcast x mask = network x mask ||| ~~~mask := by
  apply UInt32.toBitVec_inj.mp
  ext i hi
  cases hm : mask.toBitVec[i] <;> simp [broadcast, network, hm]

theorem broadcast_eq_add (x mask : UInt32) : broadcast x mask = network x mask + ~~~mask := by
  have hdisj : (x.toBitVec &&& mask.toBitVec) &&& ~~~mask.toBitVec = 0#32 := by
    ext i hi
    cases hm : mask.toBitVec[i] <;> simp [hm]
  rw [broadcast_eq_or]
  apply UInt32.toBitVec_inj.mp
  exact (BitVec.add_eq_or_of_and_eq_zero _ _ hdisj).symm

/-- The subnet of an address runs from its network address over `2 ^ (32 - n)` addresses. -/
theorem broadcast_toNat (x : UInt32) {n : Nat} (h : n ≤ 32) :
    (broadcast x (maskOfLength n)).toNat =
      x.toNat / 2 ^ (32 - n) * 2 ^ (32 - n) + (2 ^ (32 - n) - 1) := by
  have hpos : 0 < 2 ^ (32 - n) := Nat.two_pow_pos _
  have hdvd : 2 ^ 32 = 2 ^ n * 2 ^ (32 - n) := by rw [← pow_add, Nat.add_sub_cancel' h]
  -- the last subnet ends at the last address
  have hlast : x.toNat / 2 ^ (32 - n) + 1 ≤ 2 ^ n := by
    rw [Nat.succ_le_iff, Nat.div_lt_iff_lt_mul hpos, ← hdvd]
    exact x.toNat_lt
  have hend : (x.toNat / 2 ^ (32 - n) + 1) * 2 ^ (32 - n) ≤ 2 ^ 32 := by
    rw [hdvd]
    exact Nat.mul_le_mul_right _ hlast
  rw [add_mul, one_mul] at hend
  rw [broadcast_eq_add, UInt32.toNat_add, network_toNat x h, not_maskOfLength_toNat]
  exact Nat.mod_eq_of_lt (by omega)

theorem same_network_iff (x y : UInt32) {n : Nat} (h : n ≤ 32) :
    network x (maskOfLength n) = network y (maskOfLength n) ↔
      x.toNat / 2 ^ (32 - n) = y.toNat / 2 ^ (32 - n) := by
  rw [← UInt32.toNat_inj, network_toNat x h, network_toNat y h]
  exact Nat.mul_left_inj (Nat.two_pow_pos _).ne'

end Subnet

end DHCPServer
