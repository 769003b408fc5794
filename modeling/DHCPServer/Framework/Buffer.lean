import Mathlib.Data.List.Basic
import Mathlib.Data.List.GetD
import Mathlib.Tactic

namespace DHCPServer

/-- A C byte array of fixed size. -/
structure Buffer (n : Nat) where
  byte : Fin n → UInt8

namespace Buffer

variable {n m : Nat}

/-- The byte at an index; outside the array there is nothing to read and the result is 0. -/
def get (b : Buffer n) (i : Nat) : UInt8 := if h : i < n then b.byte ⟨i, h⟩ else 0

/-- The array whose byte `i` is `f i`. It is not unfolded by unification: a comparison of two
large arrays goes through `ext_get`. -/
@[irreducible] def tabulate (n : Nat) (f : Nat → UInt8) : Buffer n := ⟨fun i => f i⟩

def zero (n : Nat) : Buffer n := tabulate n fun _ => 0

/-- The `k` bytes from index `i` on as a list. -/
def readFrom (b : Buffer n) (i : Nat) : Nat → List UInt8
  | 0 => []
  | k + 1 => b.get i :: readFrom b (i + 1) k

/-- All bytes. -/
def data (b : Buffer n) : List UInt8 := b.readFrom 0 n

/-- `memcpy` of `src` to offset `off`; bytes past the end of the array are dropped. -/
def write (b : Buffer n) (off : Nat) (src : List UInt8) : Buffer n :=
  tabulate n fun i => if off ≤ i ∧ i < off + src.length then src.getD (i - off) 0 else b.get i

/-- The `m` bytes from offset `off` on. -/
def slice (b : Buffer n) (off m : Nat) : Buffer m :=
  tabulate m fun i => b.get (off + i)

@[simp] theorem get_tabulate (f : Nat → UInt8) (i : Nat) :
    (tabulate n f).get i = if i < n then f i else 0 := by
  unfold get tabulate
  by_cases h : i < n <;> simp [h]

@[simp] theorem get_zero (i : Nat) : (zero n).get i = 0 := by
  simp [zero]

theorem get_eq_zero (b : Buffer n) (i : Nat) (hi : n ≤ i) : b.get i = 0 := by
  simp [get, hi]

theorem get_write (b : Buffer n) (off : Nat) (src : List UInt8) (i : Nat) (hi : i < n) :
    (b.write off src).get i =
      if off ≤ i ∧ i < off + src.length then src.getD (i - off) 0 else b.get i := by
  simp [write, hi]

theorem get_write_in (b : Buffer n) {off : Nat} {src : List UInt8} {k : Nat}
    (hk : k < src.length) (hn : off + k < n) :
    (b.write off src).get (off + k) = src.getD k 0 := by
  rw [get_write _ _ _ _ hn, if_pos ⟨by omega, by omega⟩, Nat.add_sub_cancel_left]

theorem get_write_out (b : Buffer n) {off : Nat} {src : List UInt8} {i : Nat}
    (h : i < off ∨ off + src.length ≤ i) : (b.write off src).get i = b.get i := by
  by_cases hi : i < n
  · rw [get_write _ _ _ _ hi, if_neg (by omega)]
  · rw [get_eq_zero _ _ (Nat.le_of_not_lt hi), get_eq_zero _ _ (Nat.le_of_not_lt hi)]

theorem get_slice (b : Buffer n) (off i : Nat) (hi : i < m) :
    (b.slice off m).get i = b.get (off + i) := by
  simp [slice, hi]

theorem length_readFrom (b : Buffer n) (i k : Nat) : (b.readFrom i k).length = k := by
  induction k generalizing i with
  | zero => rfl
  | succ k ih => simp [readFrom, ih]

theorem getD_readFrom (b : Buffer n) (i k j : Nat) :
    (b.readFrom i k).getD j 0 = if j < k then b.get (i + j) else 0 := by
  induction k generalizing i j with
  | zero => simp [readFrom]
  | succ k ih =>
    cases j with
    | zero => simp [readFrom]
    | succ j => simpa [readFrom, Nat.add_assoc, Nat.add_comm 1] using ih (i + 1) j

theorem readFrom_concat (b : Buffer n) (i k : Nat) :
    b.readFrom i (k + 1) = b.readFrom i k ++ [b.get (i + k)] := by
  induction k generalizing i with
  | zero => rfl
  | succ k ih =>
    rw [readFrom, ih, readFrom, List.cons_append, Nat.add_right_comm, Nat.add_assoc]

theorem readFrom_eq_map (b : Buffer n) (i k : Nat) :
    b.readFrom i k = (List.range k).map fun j => b.get (i + j) := by
  induction k with
  | zero => rfl
  | succ k ih => rw [readFrom_concat, ih, List.range_succ, List.map_append, List.map_singleton]

@[simp] theorem length_data (b : Buffer n) : b.data.length = n := length_readFrom b 0 n

theorem getD_data (b : Buffer n) (j : Nat) : b.data.getD j 0 = b.get j := by
  rw [data, getD_readFrom, Nat.zero_add]
  split
  · rfl
  · rename_i h
    exact (get_eq_zero b j (Nat.le_of_not_lt h)).symm

/-- Arrays of one size are equal when they agree at every index. -/
theorem ext_get {a b : Buffer n} (h : ∀ i, i < n → a.get i = b.get i) : a = b := by
  have hb : a.byte = b.byte := by
    funext i
    have hi := h i.val i.isLt
    simpa [get] using hi
  cases a
  cases b
  simpa using hb

/-- What is written to the front of an array is read back from there. -/
theorem take_data_write (b : Buffer n) (src : List UInt8) (h : src.length ≤ n) :
    (b.write 0 src).data.take src.length = src := by
  apply List.ext_getElem
  · rw [List.length_take, length_data, Nat.min_eq_left h]
  · intro k hk hsrc
    have hget := get_write_in b hsrc (show 0 + k < n by omega)
    rw [Nat.zero_add, ← getD_data, List.getD_eq_getElem _ _ (by rw [length_data]; omega),
      List.getD_eq_getElem _ _ hsrc] at hget
    rw [List.getElem_take, hget]

/-- An array that is written over another of its size replaces all of it. -/
theorem write_data (b p : Buffer n) : b.write 0 p.data = p := by
  apply ext_get
  intro i hi
  have hin : (b.write 0 p.data).get (0 + i) = p.data.getD i 0 :=
    get_write_in b (by simpa using hi) (by omega)
  rw [Nat.zero_add] at hin
  rw [hin, getD_data]

instance : DecidableEq (Buffer n) := fun a b =>
  decidable_of_iff (∀ i, i < n → a.get i = b.get i) ⟨ext_get, by rintro rfl i _; rfl⟩

theorem slice_congr {a b : Buffer n} (off m : Nat)
    (h : ∀ i, i < m → a.get (off + i) = b.get (off + i)) : a.slice off m = b.slice off m := by
  apply ext_get
  intro i hi
  rw [get_slice a off i hi, get_slice b off i hi, h i hi]

end Buffer

/-- Big-endian (network order) 16- and 32-bit words from their bytes. -/
def be16 (a b : UInt8) : UInt16 := UInt16.ofNat (a.toNat * 2 ^ 8 + b.toNat)

def be32 (a b c d : UInt8) : UInt32 :=
  UInt32.ofNat (a.toNat * 2 ^ 24 + b.toNat * 2 ^ 16 + c.toNat * 2 ^ 8 + d.toNat)

def be16Bytes (x : UInt16) : List UInt8 :=
  [UInt8.ofNat (x.toNat / 2 ^ 8), UInt8.ofNat x.toNat]

def be32Bytes (x : UInt32) : List UInt8 :=
  [UInt8.ofNat (x.toNat / 2 ^ 24), UInt8.ofNat (x.toNat / 2 ^ 16),
    UInt8.ofNat (x.toNat / 2 ^ 8), UInt8.ofNat x.toNat]

/-- Little-endian words: how a `uint32_t` member of a union overlays its byte array. -/
def le32 (a b c d : UInt8) : UInt32 := be32 d c b a

def le32Bytes (x : UInt32) : List UInt8 := (be32Bytes x).reverse

theorem be32_toNat (a b c d : UInt8) :
    (be32 a b c d).toNat = a.toNat * 2 ^ 24 + b.toNat * 2 ^ 16 + c.toNat * 2 ^ 8 + d.toNat := by
  have ha := a.toNat_lt
  have hb := b.toNat_lt
  have hc := c.toNat_lt
  have hd := d.toNat_lt
  rw [be32, UInt32.toNat_ofNat', Nat.mod_eq_of_lt (by omega)]

/-- A word determines its bytes. -/
theorem be32_inj {a b c d a' b' c' d' : UInt8} (h : be32 a b c d = be32 a' b' c' d') :
    a = a' ∧ b = b' ∧ c = c' ∧ d = d' := by
  have hn := congrArg UInt32.toNat h
  rw [be32_toNat, be32_toNat] at hn
  have hb := b.toNat_lt
  have hc := c.toNat_lt
  have hd := d.toNat_lt
  have hb' := b'.toNat_lt
  have hc' := c'.toNat_lt
  have hd' := d'.toNat_lt
  refine ⟨?_, ?_, ?_, ?_⟩ <;> apply UInt8.toNat_inj.mp <;> omega

theorem be32_bytes (x : UInt32) : be32 (UInt8.ofNat (x.toNat / 2 ^ 24))
    (UInt8.ofNat (x.toNat / 2 ^ 16)) (UInt8.ofNat (x.toNat / 2 ^ 8)) (UInt8.ofNat x.toNat) = x := by
  have hx := x.toNat_lt
  apply UInt32.toNat_inj.mp
  rw [be32_toNat]
  simp only [UInt8.toNat_ofNat']
  omega

theorem be16_bytes (x : UInt16) :
    be16 (UInt8.ofNat (x.toNat / 2 ^ 8)) (UInt8.ofNat x.toNat) = x := by
  have hx := x.toNat_lt
  apply UInt16.toNat_inj.mp
  rw [be16, UInt16.toNat_ofNat']
  simp only [UInt8.toNat_ofNat']
  omega

end DHCPServer
