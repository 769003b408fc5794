import DHCPServer.Pool.AddressPool
import DHCPServer.Transaction.Cache
import DHCPServer.Utils.Xtoy

namespace DHCPServer

inductive AclStatus
  | allow
  | deny
  deriving DecidableEq

/-- `ACL_t` -/
structure Acl where
  entries : List CString
  enabled : Bool
  isBlacklist : Bool
  deriving DecidableEq

def hexDigits : List Char :=
  ['0', '1', '2', '3', '4', '5', '6', '7', '8', '9', 'a', 'b', 'c', 'd', 'e', 'f']

/-- `%02x` -/
def hexByte (b : UInt8) : CString :=
  [hexDigits.getD (b / 16).toNat '0', hexDigits.getD (b % 16).toNat '0']

/-- `uint8_array_to_mac` of the first six bytes of an address field. -/
def uint8ArrayToMac (mac : Mac) : CString :=
  [':'].intercalate (mac.data.map hexByte)

/-- `strncmp(a, b, n) == 0` of two strings. -/
def strncmpEq (a b : CString) (n : Nat) : Bool := a.take n == b.take n

def aclCheckClientStr (acl : Acl) (mac : CString) : AclStatus :=
  if !acl.enabled then .allow
  else if acl.entries.any (strncmpEq · mac 17) then
    if acl.isBlacklist then .deny else .allow
  else
    if acl.isBlacklist then .allow else .deny

def aclCheckClient (acl : Acl) (mac : Mac) : AclStatus :=
  aclCheckClientStr acl (uint8ArrayToMac mac)

/-- `dynamic_ACL_new` with the `enabled` that `init_dynamic_ACL` gives it. -/
def initDynamicAcl : Acl := ⟨[], true, true⟩

/-- The transactions in use whose first message comes from the client. -/
def associatedTransactions (mac : Mac) (cache : TransactionCache) : Nat :=
  (cache.filter fun t =>
    t.timer.isRunning && (transGetIndex t 0).any fun m => decide (mac = m.mac)).length

def dynamicAclCheck (acl : Acl) (mac : Mac) (cache : TransactionCache) : AclStatus × Acl :=
  if !acl.enabled then (.allow, acl)
  else
    let acl :=
      if cache.length / 2 ≤ associatedTransactions mac cache then
        { acl with entries := acl.entries ++ [uint8ArrayToMac mac] }
      else acl
    (aclCheckClient acl mac, acl)

section Addresses

theorem hexByte_eq (b : UInt8) : hexByte b = hexText 2 b.toNat := by
  have h : ∀ n < 256, hexByte (UInt8.ofNat n) = hexText 2 n := by decide +kernel
  simpa using h b.toNat b.toNat_lt

theorem uint8ArrayToMac_eq (mac : Mac) : uint8ArrayToMac mac = hexBytes mac.data := by
  have h (bs : List UInt8) : [':'].intercalate (bs.map hexByte) = hexBytes bs := by
    induction bs with
    | nil => rfl
    | cons b bs ih =>
      cases bs with
      | nil => simp [hexBytes, hexByte_eq, List.intercalate]
      | cons b' bs =>
        rw [hexBytes, ← ih, ← hexByte_eq]
        · simp [List.intercalate]
        · simp
  exact h mac.data

theorem length_uint8ArrayToMac (mac : Mac) : (uint8ArrayToMac mac).length = 17 := by
  have hlen := mac.length_data
  rw [uint8ArrayToMac_eq]
  cases hdata : mac.data with
  | nil => simp [hdata] at hlen
  | cons b bs =>
    rw [hdata, List.length_cons] at hlen
    rw [length_hexBytes]
    omega

/-- The text of an address in the list is the text of a client's address only for that client. -/
theorem strncmpEq_uint8ArrayToMac (a b : Mac) :
    strncmpEq (uint8ArrayToMac a) (uint8ArrayToMac b) 17 = true ↔ a = b := by
  have htake (mac : Mac) : (uint8ArrayToMac mac).take 17 = hexBytes mac.data := by
    rw [List.take_of_length_le (length_uint8ArrayToMac mac).le, uint8ArrayToMac_eq]
  rw [strncmpEq, htake, htake, beq_iff_eq]
  constructor
  · intro h
    have hdata : a.data = b.data := hexBytes_inj (by simp) h
    apply Buffer.ext_get
    intro i _
    rw [← Buffer.getD_data, ← Buffer.getD_data, hdata]
  · rintro rfl
    rfl

end Addresses

end DHCPServer
