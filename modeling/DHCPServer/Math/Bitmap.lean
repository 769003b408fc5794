import Mathlib.Data.List.Basic
import Mathlib.Tactic

namespace DHCPServer

namespace Bitmap

/-- The byte with the single bit `bit`, as `(uint8_t)(1 << bit)` gives it. -/
def bitMask (bit : UInt8) : UInt8 := 1 <<< bit

/-- Bit `n` of a list of bytes, eight to a byte from the lowest up. Past the end all bits are 0. -/
def bitAt (bm : List UInt8) (n : Nat) : Bool :=
  (bm.getD (n / 8) 0 &&& bitMask (UInt8.ofNat (n % 8))) != 0

def setBit (bm : List UInt8) (n : Nat) : List UInt8 :=
  bm.set (n / 8) (bm.getD (n / 8) 0 ||| bitMask (UInt8.ofNat (n % 8)))

/-- The bit is taken out by subtraction, which is right for a bit that is set. -/
def clearBit (bm : List UInt8) (n : Nat) : List UInt8 :=
  bm.set (n / 8) (bm.getD (n / 8) 0 - bitMask (UInt8.ofNat (n % 8)))

theorem bitMask_toNat_fin : ∀ b : Fin 8, (bitMask (UInt8.ofNat b)).toNat = 2 ^ b.val := by
  decide

theorem and_bitMask_fin : ∀ (x : Fin 256) (b : Fin 8),
    ((UInt8.ofFin x &&& bitMask (UInt8.ofNat b)) != 0) = x.val.testBit b := by
  decide +kernel

theorem sub_bitMask_fin : ∀ (x : Fin 256) (b : Fin 8), x.val.testBit b = true →
    UInt8.ofFin x - bitMask (UInt8.ofNat b) = UInt8.ofFin x ^^^ bitMask (UInt8.ofNat b) := by
  decide +kernel

theorem and_bitMask (x : UInt8) {b : Nat} (hb : b < 8) :
    ((x &&& bitMask (UInt8.ofNat b)) != 0) = x.toNat.testBit b :=
  and_bitMask_fin x.toFin ⟨b, hb⟩

theorem or_bitMask (x : UInt8) {b c : Nat} (hb : b < 8) (hc : c < 8) :
    (((x ||| bitMask (UInt8.ofNat b)) &&& bitMask (UInt8.ofNat c)) != 0) =
      (c == b || (x &&& bitMask (UInt8.ofNat c)) != 0) := by
  have hm : (bitMask (UInt8.ofNat b)).toNat = 2 ^ b := bitMask_toNat_fin ⟨b, hb⟩
  rw [and_bitMask _ hc, and_bitMask _ hc, UInt8.toNat_or, Nat.testBit_or, hm,
    Nat.testBit_two_pow, Bool.or_comm]
  simp [eq_comm, Bool.beq_eq_decide_eq]

theorem sub_bitMask {x : UInt8} {b c : Nat} (hb : b < 8) (hc : c < 8)
    (hset : ((x &&& bitMask (UInt8.ofNat b)) != 0) = true) :
    (((x - bitMask (UInt8.ofNat b)) &&& bitMask (UInt8.ofNat c)) != 0) =
      (c != b && (x &&& bitMask (UInt8.ofNat c)) != 0) := by
  have hm : (bitMask (UInt8.ofNat b)).toNat = 2 ^ b := bitMask_toNat_fin ⟨b, hb⟩
  rw [and_bitMask _ hb] at hset
  have hx : x - bitMask (UInt8.ofNat b) = x ^^^ bitMask (UInt8.ofNat b) :=
    sub_bitMask_fin x.toFin ⟨b, hb⟩ hset
  rw [hx, and_bitMask _ hc, and_bitMask _ hc, UInt8.toNat_xor, Nat.testBit_xor, hm,
    Nat.testBit_two_pow]
  by_cases h : c = b
  · subst h
    simp [hset]
  · simp [h, Ne.symm h]

variable {bm : List UInt8} {n k : Nat}

theorem getD_set_same {i : Nat} (hi : i < bm.length) (x : UInt8) : (bm.set i x).getD i 0 = x := by
  simp [List.getD, hi]

theorem getD_set_other {i j : Nat} (h : i ≠ j) (x : UInt8) :
    (bm.set i x).getD j 0 = bm.getD j 0 := by
  simp [List.getD, List.getElem?_set_ne h]

theorem bitAt_setBit (hn : n / 8 < bm.length) :
    bitAt (setBit bm n) k = (k == n || bitAt bm k) := by
  unfold bitAt setBit
  by_cases hbyte : n / 8 = k / 8
  · rw [hbyte] at hn ⊢
    rw [getD_set_same hn, or_bitMask _ (Nat.mod_lt n (by decide)) (Nat.mod_lt k (by decide))]
    have hkn : (k % 8 == n % 8) = (k == n) := by
      rw [Bool.eq_iff_iff, beq_iff_eq, beq_iff_eq]
      omega
    rw [hkn]
  · have hkn : (k == n) = false := by
      rw [beq_eq_false_iff_ne]
      rintro rfl
      exact hbyte rfl
    rw [getD_set_other hbyte, hkn, Bool.false_or]

theorem bitAt_clearBit (hset : bitAt bm n = true) :
    bitAt (clearBit bm n) k = (k != n && bitAt bm k) := by
  have hn : n / 8 < bm.length := by
    by_contra hout
    have hz : bm.getD (n / 8) 0 = 0 := by
      simp [List.getD, List.getElem?_eq_none (Nat.le_of_not_lt hout)]
    rw [bitAt, hz] at hset
    simp at hset
  unfold bitAt at hset ⊢
  unfold clearBit
  by_cases hbyte : n / 8 = k / 8
  · rw [hbyte] at hn hset ⊢
    rw [getD_set_same hn,
      sub_bitMask (Nat.mod_lt n (by decide)) (Nat.mod_lt k (by decide)) hset]
    have hkn : (k % 8 != n % 8) = (k != n) := by
      rw [Bool.eq_iff_iff, bne_iff_ne, bne_iff_ne]
      omega
    rw [hkn]
  · have hkn : (k != n) = true := by
      rw [bne_iff_ne]
      rintro rfl
      exact hbyte rfl
    rw [getD_set_other hbyte, hkn, Bool.true_and]

/-- Setting a bit never clears one, also when the byte does not exist. -/
theorem bitAt_setBit_of_bitAt (h : bitAt bm k = true) : bitAt (setBit bm n) k = true := by
  by_cases hn : n / 8 < bm.length
  · rw [bitAt_setBit hn, h, Bool.or_true]
  · rwa [setBit, List.set_eq_of_length_le (Nat.le_of_not_lt hn)]

theorem bitAt_setBit_ne (h : k ≠ n) : bitAt (setBit bm n) k = bitAt bm k := by
  by_cases hn : n / 8 < bm.length
  · rw [bitAt_setBit hn, beq_eq_false_iff_ne.mpr h, Bool.false_or]
  · rw [setBit, List.set_eq_of_length_le (Nat.le_of_not_lt hn)]

@[simp] theorem bitAt_replicate_zero (m : Nat) : bitAt (List.replicate m 0) k = false := by
  have h : (List.replicate m (0 : UInt8)).getD (k / 8) 0 = 0 := by
    by_cases hk : k / 8 < m <;> simp [List.getD, hk]
  rw [bitAt, h]
  simp

@[simp] theorem length_setBit : (setBit bm n).length = bm.length := by
  simp [setBit]

@[simp] theorem length_clearBit : (clearBit bm n).length = bm.length := by
  simp [clearBit]

end Bitmap

end DHCPServer
