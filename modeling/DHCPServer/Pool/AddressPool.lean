import DHCPServer.Framework.Fault
import DHCPServer.Math.Bitmap
import DHCPServer.Math.Subnet
import DHCPServer.Packet.Option

namespace DHCPServer

/-- A name as the configuration file gives it; only comparison with `strcmp` is used. -/
abbrev CString := List Char

/-- `pool_range`: the number of bytes of the bitmap, in 32-bit arithmetic. -/
def poolRange (startAddr endAddr : UInt32) : UInt32 := (endAddr - startAddr + 8) / 8

def canRangeBeOnSubnet (start «end» mask : UInt32) : Bool :=
  let subnetStart := start &&& mask
  let subnetEnd := subnetStart + ~~~mask
  decide (subnetStart + 1 ≤ start) && decide («end» ≤ subnetEnd - 1)

/-- `address_pool_t`. The facts about the bounds and the size of the bitmap are what
`address_pool_new` establishes and nothing changes. -/
structure AddressPool where
  name : CString
  startAddress : UInt32
  endAddress : UInt32
  mask : UInt32
  leasesBm : List UInt8
  availableAddresses : UInt32
  dhcpOptionOverride : List DhcpOption
  positive : 0 < startAddress
  ordered : startAddress < endAddress
  bounded : endAddress < 0xffffffff
  bitmapSize : leasesBm.length = (poolRange startAddress endAddress).toNat
  deriving DecidableEq

/-- A subnet end that wraps to 0 belongs to the all-ones mask and the start 0.0.0.0. -/
theorem eq_zero_of_subnet_end {start mask : UInt32} (h : (start &&& mask) + ~~~mask = 0) :
    start = 0 := by
  have hlast : start ||| ~~~mask = 0 := (Subnet.broadcast_eq_add start mask).trans h
  exact (UInt32.or_eq_zero_iff.mp hlast).1

theorem canRange_positive {start «end» mask : UInt32}
    (h : canRangeBeOnSubnet start «end» mask = true) : 0 < start := by
  simp only [canRangeBeOnSubnet, Bool.and_eq_true, decide_eq_true_eq] at h
  obtain ⟨hs, -⟩ := h
  rw [UInt32.lt_iff_toNat_lt, UInt32.toNat_zero]
  by_contra hz
  have h0 : start = 0 := UInt32.toNat_inj.mp (by rw [UInt32.toNat_zero]; omega)
  rw [h0] at hs
  simp [UInt32.le_iff_toNat_le] at hs

theorem canRange_bounded {start «end» mask : UInt32}
    (h : canRangeBeOnSubnet start «end» mask = true) : «end» < 0xffffffff := by
  simp only [canRangeBeOnSubnet, Bool.and_eq_true, decide_eq_true_eq] at h
  obtain ⟨hs, he⟩ := h
  have hne : (start &&& mask) + ~~~mask ≠ 0 := by
    intro h0
    rw [eq_zero_of_subnet_end h0] at hs
    simp [UInt32.le_iff_toNat_le] at hs
  have hpos : ((start &&& mask) + ~~~mask).toNat ≠ 0 := by
    intro h0
    exact hne (UInt32.toNat_inj.mp h0)
  have hone : (1 : UInt32) ≤ (start &&& mask) + ~~~mask := by
    rw [UInt32.le_iff_toNat_le, UInt32.toNat_one]
    omega
  rw [UInt32.le_iff_toNat_le, UInt32.toNat_sub_of_le _ _ hone, UInt32.toNat_one] at he
  have hlt := ((start &&& mask) + ~~~mask).toNat_lt
  rw [UInt32.lt_iff_toNat_lt]
  simp only [UInt32.reduceToNat]
  omega

/-- The subnet mask option every pool starts with. -/
def subnetMaskOption (mask : UInt32) : DhcpOption where
  tag := Tag.subnetMask
  type := .ip
  lenght := 4
  value := (Buffer.zero optionMaxLenght).write 0 (le32Bytes mask)

def addressPoolNew (name : CString) (startAddress endAddress subnetMask : UInt32) :
    Option AddressPool :=
  if hr : canRangeBeOnSubnet startAddress endAddress subnetMask = true then
    if hl : startAddress < endAddress then
      some {
        name := name
        startAddress := startAddress
        endAddress := endAddress
        mask := subnetMask
        leasesBm := List.replicate (poolRange startAddress endAddress).toNat 0
        availableAddresses := endAddress - startAddress + 1
        dhcpOptionOverride := dhcpOptionAdd [] (subnetMaskOption subnetMask)
        positive := canRange_positive hr
        ordered := hl
        bounded := canRange_bounded hr
        bitmapSize := List.length_replicate }
    else none
  else none

/-- The pool with the options of the configuration file added to its own. -/
def AddressPool.addOptions (pool : AddressPool) (options : List DhcpOption) : AddressPool :=
  { pool with dhcpOptionOverride := options.foldl dhcpOptionAdd pool.dhcpOptionOverride }

def addressBelongsToPool (pool : AddressPool) (address : UInt32) : Bool :=
  decide (pool.startAddress ≤ address) && decide (address ≤ pool.endAddress)

/-- The pool with another byte at an index of its bitmap and another counter. -/
def AddressPool.update (pool : AddressPool) (index : Nat) (byte : UInt8) (available : UInt32) :
    AddressPool :=
  { pool with
    leasesBm := pool.leasesBm.set index byte
    availableAddresses := available
    bitmapSize := (List.length_set ..).trans pool.bitmapSize }

inductive AllocationAction
  | set
  | clear
  | get
  | invalid
  deriving DecidableEq

/-- The switch of `address_pool_address_allocation_ctl`, with the byte that has the bit of the
address. -/
def AddressPool.switchAction (pool : AddressPool) (index : Nat) (byte bit : UInt8) :
    AllocationAction → Int × AddressPool
  | .set =>
    if (byte &&& Bitmap.bitMask bit) != 0 then (-1, pool)
    else (0, pool.update index (byte ||| Bitmap.bitMask bit) (pool.availableAddresses - 1))
  | .clear =>
    if (byte &&& Bitmap.bitMask bit) != 0 then
      (0, pool.update index (byte - Bitmap.bitMask bit) (pool.availableAddresses + 1))
    else (-1, pool)
  | .get => (if (byte &&& Bitmap.bitMask bit) != 0 then 1 else 0, pool)
  | .invalid => (-1, pool)

/-- `address_pool_address_allocation_ctl` with its return value. The byte is read before anything
else, and behind the end of the bitmap there is none. -/
def addressPoolAddressAllocationCtl (pool : AddressPool) (address : UInt32)
    (action : AllocationAction) : Except Fault (Int × AddressPool) :=
  if addressBelongsToPool pool address then
    let addressNumber := address - pool.startAddress
    let index := (addressNumber / 8).toNat
    let bit := (addressNumber % 8).toUInt8
    match pool.leasesBm[index]? with
    | none => .error .outOfBounds
    | some byte => .ok (pool.switchAction index byte bit action)
  else .ok (-1, pool)

def addressPoolSetAddressAllocation (pool : AddressPool) (address : UInt32) :
    Except Fault (Int × AddressPool) :=
  addressPoolAddressAllocationCtl pool address .set

def addressPoolGetAddressAllocation (pool : AddressPool) (address : UInt32) : Except Fault Int :=
  (addressPoolAddressAllocationCtl pool address .get).map Prod.fst

def addressPoolClearAddressAllocation (pool : AddressPool) (address : UInt32) :
    Except Fault (Int × AddressPool) :=
  addressPoolAddressAllocationCtl pool address .clear

namespace AddressPool

variable (pool : AddressPool) (address : UInt32)

/-- The call without a fault, see `allocationCtl_eq`: behind the end of the bitmap every bit is read
as 0 and nothing is written. The allocator and the server are modelled with it. -/
def allocationCtl (action : AllocationAction) : Int × AddressPool :=
  if addressBelongsToPool pool address then
    let addressNumber := address - pool.startAddress
    let index := (addressNumber / 8).toNat
    pool.switchAction index (pool.leasesBm.getD index 0) (addressNumber % 8).toUInt8 action
  else (-1, pool)

def setAllocation : Int × AddressPool := pool.allocationCtl address .set

def getAllocation : Int := (pool.allocationCtl address .get).1

def clearAllocation : Int × AddressPool := pool.allocationCtl address .clear

end AddressPool

namespace AddressPool

variable (pool : AddressPool) {x y : UInt32}

/-- The bit number of an address. -/
def number (x : UInt32) : Nat := (x - pool.startAddress).toNat

/-- The address lies in the pool and its bit is set. -/
def isAllocated (x : UInt32) : Bool :=
  addressBelongsToPool pool x && Bitmap.bitAt pool.leasesBm (pool.number x)

/-- The addresses from the first to the last of the pool, the values that the variable of a loop
`for (a = start_address; a <= end_address; a++)` takes. It cannot wrap, see `bounded`. -/
def addresses : List UInt32 :=
  (List.range (pool.endAddress.toNat - pool.startAddress.toNat + 1)).map
    fun i => pool.startAddress + UInt32.ofNat i

/-- The bitmap has a bit for every address, which fails only when `pool_range` wraps. -/
def Covered : Prop :=
  pool.endAddress.toNat - pool.startAddress.toNat + 1 ≤ 8 * pool.leasesBm.length

instance : Decidable pool.Covered := inferInstanceAs (Decidable (_ ≤ _))

/-- The pool with an address marked as allocated. -/
def mark (x : UInt32) : AddressPool :=
  { pool with
    leasesBm := Bitmap.setBit pool.leasesBm (pool.number x)
    availableAddresses := pool.availableAddresses - 1
    bitmapSize := Bitmap.length_setBit.trans pool.bitmapSize }

/-- The pool with an address marked as free. -/
def unmark (x : UInt32) : AddressPool :=
  { pool with
    leasesBm := Bitmap.clearBit pool.leasesBm (pool.number x)
    availableAddresses := pool.availableAddresses + 1
    bitmapSize := Bitmap.length_clearBit.trans pool.bitmapSize }

/-- Everything of a pool that no operation changes. -/
def shape : CString × UInt32 × UInt32 × UInt32 × List DhcpOption :=
  (pool.name, pool.startAddress, pool.endAddress, pool.mask, pool.dhcpOptionOverride)

@[simp] theorem mark_shape : (pool.mark x).shape = pool.shape := rfl
@[simp] theorem unmark_shape : (pool.unmark x).shape = pool.shape := rfl

variable {pool}

theorem belongs_iff : addressBelongsToPool pool x = true ↔
    pool.startAddress.toNat ≤ x.toNat ∧ x.toNat ≤ pool.endAddress.toNat := by
  simp [addressBelongsToPool, UInt32.le_iff_toNat_le]

theorem belongs_ne_zero (h : addressBelongsToPool pool x = true) : x ≠ 0 := by
  have hp := UInt32.lt_iff_toNat_lt.mp pool.positive
  have hx := (belongs_iff.mp h).1
  rintro rfl
  simp only [UInt32.toNat_zero] at hp hx
  omega

theorem belongs_of_shape {pool' : AddressPool} (h : pool'.shape = pool.shape) (x : UInt32) :
    addressBelongsToPool pool' x = addressBelongsToPool pool x := by
  simp only [shape, Prod.mk.injEq] at h
  simp [addressBelongsToPool, h.2.1, h.2.2.1]

theorem number_eq (h : addressBelongsToPool pool x = true) :
    pool.number x = x.toNat - pool.startAddress.toNat :=
  UInt32.toNat_sub_of_le _ _ (UInt32.le_iff_toNat_le.mpr (belongs_iff.mp h).1)

theorem number_inj (hx : addressBelongsToPool pool x = true)
    (hy : addressBelongsToPool pool y = true) : pool.number x = pool.number y ↔ x = y := by
  constructor
  · intro h
    rw [number_eq hx, number_eq hy] at h
    have hx' := belongs_iff.mp hx
    have hy' := belongs_iff.mp hy
    exact UInt32.toNat_inj.mp (by omega)
  · rintro rfl
    rfl

theorem belongs_of_isAllocated (h : pool.isAllocated x = true) :
    addressBelongsToPool pool x = true := by
  simp only [isAllocated, Bool.and_eq_true] at h
  exact h.1

/-- The byte index and the mask of the source address bit `number`. -/
theorem index_eq (n : UInt32) :
    (n / 8).toNat = n.toNat / 8 ∧ (n % 8).toUInt8 = UInt8.ofNat (n.toNat % 8) := by
  refine ⟨by simp, ?_⟩
  apply UInt8.toNat_inj.mp
  simp

theorem mark_isAllocated_of_isAllocated (h : pool.isAllocated y = true) :
    (pool.mark x).isAllocated y = true := by
  simp only [isAllocated, Bool.and_eq_true] at h ⊢
  exact ⟨h.1, Bitmap.bitAt_setBit_of_bitAt h.2⟩

theorem mark_isAllocated_ne (hx : addressBelongsToPool pool x = true) (h : y ≠ x) :
    (pool.mark x).isAllocated y = pool.isAllocated y := by
  unfold isAllocated
  by_cases hy : addressBelongsToPool pool y = true
  · have hn : pool.number y ≠ pool.number x := fun hn => h ((number_inj hy hx).mp hn)
    have hbit : Bitmap.bitAt (pool.mark x).leasesBm (pool.number y) =
        Bitmap.bitAt pool.leasesBm (pool.number y) := Bitmap.bitAt_setBit_ne hn
    exact congrArg (addressBelongsToPool pool y && ·) hbit
  · rw [belongs_of_shape (pool.mark_shape), Bool.eq_false_of_not_eq_true hy]
    rfl

theorem mark_isAllocated_self (hc : pool.Covered) (hx : addressBelongsToPool pool x = true) :
    (pool.mark x).isAllocated x = true := by
  have hlen : pool.number x / 8 < pool.leasesBm.length := by
    have hb := belongs_iff.mp hx
    rw [number_eq hx]
    unfold Covered at hc
    omega
  have hbit : Bitmap.bitAt (pool.mark x).leasesBm (pool.number x) = true := by
    rw [mark, Bitmap.bitAt_setBit hlen, beq_self_eq_true, Bool.true_or]
  simp only [isAllocated, Bool.and_eq_true]
  exact ⟨hx, hbit⟩

theorem unmark_isAllocated (hx : pool.isAllocated x = true) :
    (pool.unmark x).isAllocated y = (pool.isAllocated y && y != x) := by
  have hbelongs := belongs_of_isAllocated hx
  have hset : Bitmap.bitAt pool.leasesBm (pool.number x) = true := by
    simp only [isAllocated, Bool.and_eq_true] at hx
    exact hx.2
  have hbit : Bitmap.bitAt (pool.unmark x).leasesBm (pool.number y) =
      (pool.number y != pool.number x && Bitmap.bitAt pool.leasesBm (pool.number y)) :=
    Bitmap.bitAt_clearBit hset
  have hsame : (pool.unmark x).number y = pool.number y := rfl
  by_cases hy : addressBelongsToPool pool y = true
  · have hn : (pool.number y != pool.number x) = (y != x) := by
      rw [Bool.eq_iff_iff, bne_iff_ne, bne_iff_ne]
      exact not_congr (number_inj hy hbelongs)
    rw [isAllocated, isAllocated, belongs_of_shape pool.unmark_shape, hsame, hbit, hn, hy,
      Bool.true_and, Bool.true_and, Bool.and_comm]
  · rw [isAllocated, isAllocated, belongs_of_shape pool.unmark_shape,
      Bool.eq_false_of_not_eq_true hy]
    rfl

/-- The bit the source reads for an address of the pool. -/
theorem isAllocated_eq (h : addressBelongsToPool pool x = true) :
    pool.isAllocated x = ((pool.leasesBm.getD ((x - pool.startAddress) / 8).toNat 0 &&&
      Bitmap.bitMask ((x - pool.startAddress) % 8).toUInt8) != 0) := by
  obtain ⟨hi, hb⟩ := index_eq (x - pool.startAddress)
  simp [isAllocated, h, Bitmap.bitAt, number, hi, hb]

theorem get_eq : pool.getAllocation x =
    if addressBelongsToPool pool x then (if pool.isAllocated x then 1 else 0) else -1 := by
  unfold getAllocation allocationCtl
  cases h : addressBelongsToPool pool x with
  | false => rfl
  | true => simp [isAllocated_eq h, switchAction]

theorem set_eq : pool.setAllocation x =
    if addressBelongsToPool pool x && !pool.isAllocated x then (0, pool.mark x) else (-1, pool) := by
  unfold setAllocation allocationCtl
  obtain ⟨hi, hb⟩ := index_eq (x - pool.startAddress)
  cases h : addressBelongsToPool pool x with
  | false => rfl
  | true =>
    rw [if_pos rfl, isAllocated_eq h]
    dsimp only [switchAction]
    rw [hi, hb]
    split <;> rename_i hbit <;> simp only [hbit] <;> rfl

theorem clear_eq : pool.clearAllocation x =
    if pool.isAllocated x then (0, pool.unmark x) else (-1, pool) := by
  unfold clearAllocation allocationCtl
  obtain ⟨hi, hb⟩ := index_eq (x - pool.startAddress)
  cases h : addressBelongsToPool pool x with
  | false =>
    have ha : pool.isAllocated x = false := by simp [isAllocated, h]
    rw [ha]
    rfl
  | true =>
    rw [if_pos rfl, isAllocated_eq h]
    dsimp only [switchAction]
    rw [hi, hb]
    split <;> rfl

theorem toNat_address {i : Nat} (hi : i < pool.endAddress.toNat - pool.startAddress.toNat + 1) :
    (pool.startAddress + UInt32.ofNat i).toNat = pool.startAddress.toNat + i := by
  have ho := UInt32.lt_iff_toNat_lt.mp pool.ordered
  have hend := pool.endAddress.toNat_lt
  rw [UInt32.toNat_add, UInt32.toNat_ofNat', Nat.mod_eq_of_lt (a := i) (by omega)]
  exact Nat.mod_eq_of_lt (by omega)

theorem mem_addresses : x ∈ pool.addresses ↔ addressBelongsToPool pool x = true := by
  have ho := UInt32.lt_iff_toNat_lt.mp pool.ordered
  rw [belongs_iff, addresses, List.mem_map]
  constructor
  · intro h
    obtain ⟨i, hi, rfl⟩ := h
    rw [List.mem_range] at hi
    rw [toNat_address hi]
    omega
  · intro h
    refine ⟨x.toNat - pool.startAddress.toNat, List.mem_range.mpr (by omega), ?_⟩
    apply UInt32.toNat_inj.mp
    rw [toNat_address (by omega)]
    omega

theorem addresses_increasing : pool.addresses.Pairwise (· < ·) := by
  rw [addresses, List.pairwise_map]
  refine List.pairwise_lt_range.imp_of_mem ?_
  intro i j hi hj hij
  rw [List.mem_range] at hi hj
  rw [UInt32.lt_iff_toNat_lt, toNat_address hi, toNat_address hj]
  omega

theorem addresses_nodup : pool.addresses.Nodup :=
  addresses_increasing.imp fun h => UInt32.ne_of_lt h

/-- The last address stands at the end. -/
theorem addresses_eq : pool.addresses = pool.addresses.dropLast ++ [pool.endAddress] := by
  have ho := UInt32.lt_iff_toNat_lt.mp pool.ordered
  have hend : pool.startAddress + UInt32.ofNat (pool.endAddress.toNat - pool.startAddress.toNat) =
      pool.endAddress := by
    apply UInt32.toNat_inj.mp
    rw [toNat_address (by omega)]
    omega
  rw [addresses, List.range_succ, List.map_append, List.map_singleton, List.dropLast_concat, hend]

theorem length_addresses : pool.addresses.length =
    pool.endAddress.toNat - pool.startAddress.toNat + 1 := by
  simp [addresses]

theorem covered_iff : pool.Covered ↔
    pool.endAddress.toNat - pool.startAddress.toNat + 8 < 2 ^ 32 := by
  have ho := UInt32.lt_iff_toNat_lt.mp pool.ordered
  have hend := pool.endAddress.toNat_lt
  rw [Covered, pool.bitmapSize, poolRange, UInt32.toNat_div, UInt32.toNat_add,
    UInt32.toNat_sub_of_le _ _ (UInt32.le_iff_toNat_le.mpr ho.le)]
  simp only [UInt32.reduceToNat]
  omega

/-- A bitmap that does not cover its pool has no byte at all. -/
theorem leasesBm_of_not_covered (h : ¬pool.Covered) : pool.leasesBm = [] := by
  have hwrap := mt covered_iff.mpr h
  have ho := UInt32.lt_iff_toNat_lt.mp pool.ordered
  have hpos := UInt32.lt_iff_toNat_lt.mp pool.positive
  have hend := UInt32.lt_iff_toNat_lt.mp pool.bounded
  apply List.eq_nil_of_length_eq_zero
  rw [pool.bitmapSize, poolRange, UInt32.toNat_div, UInt32.toNat_add,
    UInt32.toNat_sub_of_le _ _ (UInt32.le_iff_toNat_le.mpr ho.le)]
  simp only [UInt32.reduceToNat] at hpos hend ⊢
  omega

theorem number_div_lt (hc : pool.Covered) (hx : addressBelongsToPool pool x = true) :
    pool.number x / 8 < pool.leasesBm.length := by
  have hb := belongs_iff.mp hx
  rw [number_eq hx]
  unfold Covered at hc
  omega

/-- The call goes out of bounds exactly on the addresses of a pool that its bitmap does not cover. -/
theorem allocationCtl_eq (pool : AddressPool) (x : UInt32) (action : AllocationAction) :
    addressPoolAddressAllocationCtl pool x action =
      if addressBelongsToPool pool x = true ∧ ¬pool.Covered then .error .outOfBounds
      else .ok (pool.allocationCtl x action) := by
  unfold addressPoolAddressAllocationCtl allocationCtl
  cases hx : addressBelongsToPool pool x with
  | false => rfl
  | true =>
    rw [if_pos rfl, if_pos rfl]
    by_cases hc : pool.Covered
    · have hlt := number_div_lt hc hx
      rw [number, ← (index_eq _).1] at hlt
      dsimp only
      rw [if_neg (not_and_not_right.mpr fun _ => hc), List.getD_eq_getElem?_getD,
        List.getElem?_eq_getElem hlt]
      rfl
    · rw [if_pos ⟨rfl, hc⟩, leasesBm_of_not_covered hc]
      rfl

/-- On a pool that its bitmap covers no call goes out of bounds. -/
theorem calls_eq (hc : pool.Covered) (x : UInt32) :
    addressPoolSetAddressAllocation pool x = .ok (pool.setAllocation x) ∧
      addressPoolGetAddressAllocation pool x = .ok (pool.getAllocation x) ∧
      addressPoolClearAddressAllocation pool x = .ok (pool.clearAllocation x) := by
  have hin : ∀ action, addressPoolAddressAllocationCtl pool x action =
      .ok (pool.allocationCtl x action) := by
    intro action
    rw [allocationCtl_eq, if_neg (not_and_not_right.mpr fun _ => hc)]
  refine ⟨hin .set, ?_, hin .clear⟩
  rw [addressPoolGetAddressAllocation, hin]
  rfl

theorem covered_of_shape {pool' : AddressPool} (h : pool'.shape = pool.shape) :
    pool'.Covered ↔ pool.Covered := by
  simp only [shape, Prod.mk.injEq] at h
  rw [covered_iff, covered_iff, h.2.1, h.2.2.1]

theorem addressPoolNew_eq_some {name : CString} {start «end» mask : UInt32}
    (h : addressPoolNew name start «end» mask = some pool) :
    pool.shape = (name, start, «end», mask, [subnetMaskOption mask]) ∧
      pool.leasesBm = List.replicate (poolRange start «end»).toNat 0 ∧
      pool.availableAddresses = «end» - start + 1 := by
  unfold addressPoolNew at h
  split at h
  · split at h
    · obtain rfl := Option.some.inj h
      exact ⟨rfl, rfl, rfl⟩
    · cases h
  · cases h

/-- A pool that has just been made has no address allocated, whatever options it gets. -/
theorem addressPoolNew_free {name : CString} {start «end» mask : UInt32}
    (h : addressPoolNew name start «end» mask = some pool) (options : List DhcpOption)
    (x : UInt32) : (pool.addOptions options).isAllocated x = false := by
  obtain ⟨-, hbm, -⟩ := addressPoolNew_eq_some h
  have hzero : Bitmap.bitAt (pool.addOptions options).leasesBm
      ((pool.addOptions options).number x) = false := by
    show Bitmap.bitAt pool.leasesBm _ = false
    rw [hbm]
    exact Bitmap.bitAt_replicate_zero _
  rw [isAllocated, hzero, Bool.and_false]

end AddressPool

end DHCPServer
