import DHCPServer.Packet.Message
import DHCPServer.Pool.Allocator

namespace DHCPServer

/-- One element of the array of a lease file. -/
structure LeaseRecord where
  address : UInt32
  subnet : UInt32
  xid : UInt32
  leaseStart : UInt32
  leaseExpire : UInt32
  flags : UInt8
  clientMacAddress : Mac
  deriving DecidableEq

/-- `lease_t`: a record and the name of the pool whose file it belongs to. -/
structure Lease where
  record : LeaseRecord
  poolName : CString
  deriving DecidableEq

/-- The lease files under their pool names; a file that does not exist is an empty one. Every pool is
taken to have a file of its own, which names without `/` have. -/
abbrev LeaseStore := CString → List LeaseRecord

/-- The store with other contents of one file. -/
def LeaseStore.set (store : LeaseStore) (name : CString) (records : List LeaseRecord) :
    LeaseStore :=
  fun n => if n = name then records else store n

/-- `lease_retrieve`: the first record of the address. `none` stands for an error status. -/
def leaseRetrieve (store : LeaseStore) (addr : UInt32) (poolName : CString) : Option Lease :=
  ((store poolName).find? (·.address == addr)).map (⟨·, poolName⟩)

/-- `lease_retrieve_address`: the file is the one of the first pool that contains the address. -/
def leaseRetrieveAddress (store : LeaseStore) (addr : UInt32) (pools : List AddressPool) :
    Option Lease :=
  match pools.find? (addressBelongsToPool · addr) with
  | none => none
  | some p => leaseRetrieve store addr p.name

/-- `lease_add` appends without looking at the records that are there. `written` tells whether
the file could be written. -/
def leaseAdd (written : Bool) (store : LeaseStore) (lease : Lease) : Bool × LeaseStore :=
  if written then (true, store.set lease.poolName (store lease.poolName ++ [lease.record]))
  else (false, store)

/-- How `lease_remove` gets on with the file: it is cut to length 0 and written anew, it cannot be
opened, it cannot be cut, or it is cut and then cannot be written. -/
inductive Rewrite where
  | done
  | notOpened
  | notTruncated
  | notWritten
  deriving DecidableEq

/-- `lease_remove` takes out the first record of the lease's address, whoever's it is. What goes
wrong after the file has been read does not show in the status, and a file that has been
cut and not written holds no records. -/
def leaseRemove (rewrite : Rewrite) (store : LeaseStore) (address : UInt32) (poolName : CString) :
    Bool × LeaseStore :=
  let found := (store poolName).any (·.address == address)
  match rewrite with
  | .done => (found, store.set poolName ((store poolName).eraseP (·.address == address)))
  | .notOpened => (false, store)
  | .notTruncated => (found, store)
  | .notWritten => (found, store.set poolName [])

/-- One pass of the loop of `load_pool_leases` over the records found in the file, which can be
rewritten. -/
def loadLease (now : UInt32) (st : LeaseStore × AddressPool) (r : LeaseRecord) :
    LeaseStore × AddressPool :=
  if r.leaseExpire ≤ now then ((leaseRemove .done st.1 r.address st.2.name).2, st.2)
  else (st.1, (st.2.setAllocation r.address).2)

def loadPoolLeases (now : UInt32) (store : LeaseStore) (pool : AddressPool) :
    LeaseStore × AddressPool :=
  (store pool.name).foldl (loadLease now) (store, pool)

/-- The loop of `init_load_persisten_leases` over the pools. -/
def initLoadPersistenLeases (now : UInt32) : LeaseStore → List AddressPool →
    LeaseStore × List AddressPool
  | store, [] => (store, [])
  | store, pool :: pools =>
    let (store, pool) := loadPoolLeases now store pool
    let (store, pools) := initLoadPersistenLeases now store pools
    (store, pool :: pools)

section Store

variable {store store' : LeaseStore} {name n : CString} {a : UInt32} {r : LeaseRecord}

@[simp] theorem LeaseStore.set_same (store : LeaseStore) (name : CString)
    (records : List LeaseRecord) : store.set name records name = records := by
  simp [LeaseStore.set]

theorem LeaseStore.set_other (h : n ≠ name) (records : List LeaseRecord) :
    store.set name records n = store n := by
  simp [LeaseStore.set, h]

theorem leaseRetrieve_eq_some {l : Lease} : leaseRetrieve store a name = some l ↔
    (store name).find? (·.address == a) = some l.record ∧ l.poolName = name := by
  unfold leaseRetrieve
  rw [Option.map_eq_some_iff]
  constructor
  · intro h
    obtain ⟨r, hr, rfl⟩ := h
    exact ⟨hr, rfl⟩
  · intro h
    obtain ⟨hr, rfl⟩ := h
    exact ⟨l.record, hr, rfl⟩

/-- The lease found for an address, its pool and its place in the pool's file. -/
theorem leaseRetrieveAddress_eq_some {pools : List AddressPool} {l : Lease} :
    leaseRetrieveAddress store a pools = some l ↔
      ∃ p, pools.find? (addressBelongsToPool · a) = some p ∧ l.poolName = p.name ∧
        (store p.name).find? (·.address == a) = some l.record := by
  unfold leaseRetrieveAddress
  cases h : pools.find? (addressBelongsToPool · a) with
  | none => simp
  | some p =>
    simp only [leaseRetrieve_eq_some, Option.some.injEq, exists_eq_left']
    exact and_comm

theorem mem_leaseAdd {written : Bool} {l : Lease} (h : r ∈ (leaseAdd written store l).2 n) :
    r ∈ store n ∨ (n = l.poolName ∧ r = l.record) := by
  cases written with
  | false => exact .inl h
  | true =>
    simp only [leaseAdd, if_true, LeaseStore.set] at h
    split at h
    · rename_i hn
      rw [List.mem_append, List.mem_singleton] at h
      exact h.imp (fun h => hn ▸ h) fun h => ⟨hn, h⟩
    · exact .inl h

theorem mem_leaseAdd_of_mem {written : Bool} {l : Lease} (h : r ∈ store n) :
    r ∈ (leaseAdd written store l).2 n := by
  cases written with
  | false => exact h
  | true =>
    simp only [leaseAdd, if_true, LeaseStore.set]
    split
    · rename_i hn
      exact List.mem_append_left _ (hn ▸ h)
    · exact h

theorem mem_leaseAdd_self (l : Lease) : l.record ∈ (leaseAdd true store l).2 l.poolName := by
  simp [leaseAdd]

/-- Only a file that is left empty loses records of other addresses. -/
theorem mem_leaseRemove_of_ne {rewrite : Rewrite}
    (hw : rewrite = .notWritten → ∀ r ∈ store name, r.address = a) (hr : r.address ≠ a)
    (h : r ∈ store n) : r ∈ (leaseRemove rewrite store a name).2 n := by
  cases rewrite with
  | done =>
    simp only [leaseRemove, LeaseStore.set]
    split
    · rename_i hn
      exact (List.mem_eraseP_of_neg (by simpa using hr)).mpr (hn ▸ h)
    · exact h
  | notOpened | notTruncated => exact h
  | notWritten =>
    simp only [leaseRemove, LeaseStore.set]
    split
    · rename_i hn
      exact absurd (hw rfl r (hn ▸ h)) hr
    · exact h

theorem leaseRemove_same (store : LeaseStore) (a : UInt32) (name : CString) :
    (leaseRemove .done store a name).2 name = (store name).eraseP (·.address == a) :=
  LeaseStore.set_same store name _

theorem leaseRemove_notWritten (store : LeaseStore) (a : UInt32) (name : CString) :
    (leaseRemove .notWritten store a name).2 name = [] :=
  LeaseStore.set_same store name _

/-- A file that is neither written nor cut stays as it is. -/
theorem leaseRemove_untouched {rewrite : Rewrite} (hdone : rewrite ≠ .done)
    (hcut : rewrite ≠ .notWritten) (store : LeaseStore) (a : UInt32) (name : CString) :
    (leaseRemove rewrite store a name).2 = store := by
  cases rewrite with
  | done => exact absurd rfl hdone
  | notOpened | notTruncated => rfl
  | notWritten => exact absurd rfl hcut

theorem leaseRemove_other (rewrite : Rewrite) (h : n ≠ name) :
    (leaseRemove rewrite store a name).2 n = store n := by
  cases rewrite with
  | done | notWritten => exact LeaseStore.set_other h _
  | notOpened | notTruncated => rfl

/-- A removal only takes records away. -/
theorem leaseRemove_sublist (rewrite : Rewrite) (store : LeaseStore) (a : UInt32)
    (name n : CString) : ((leaseRemove rewrite store a name).2 n).Sublist (store n) := by
  by_cases hn : n = name
  · subst hn
    cases rewrite with
    | done =>
      rw [leaseRemove_same]
      exact List.eraseP_sublist
    | notOpened | notTruncated => exact List.Sublist.refl _
    | notWritten =>
      rw [leaseRemove_notWritten]
      exact List.nil_sublist _
  · rw [leaseRemove_other _ hn]

theorem mem_leaseRemove {rewrite : Rewrite} (h : r ∈ (leaseRemove rewrite store a name).2 n) :
    r ∈ store n :=
  (leaseRemove_sublist rewrite store a name n).subset h

/-- The status of a removal tells whether there is a record, if the file can be opened. -/
theorem leaseRemove_status (rewrite : Rewrite) (store : LeaseStore) (a : UInt32) (name : CString) :
    (leaseRemove rewrite store a name).1 =
      (rewrite != .notOpened && (store name).any (·.address == a)) := by
  cases rewrite <;> rfl

end Store

end DHCPServer
