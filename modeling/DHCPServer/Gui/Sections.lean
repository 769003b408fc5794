import DHCPServer.Gui.Entries
import DHCPServer.Gui.Options

namespace DHCPServer

section Arrays

variable {items : List Json} {json : Json}

theorem refillArray_array (items old : List Json) : refillArray items (.array old) = .array items := by
  have hadd : ∀ front : List Json,
      items.foldl (fun json item => Json.addItemToArray item json) (.array front) =
        .array (front ++ items) := by
    induction items with
    | nil => simp
    | cons item items ih =>
      intro front
      rw [List.foldl_cons, Json.addItemToArray, ih, List.append_assoc, List.singleton_append]
  exact hadd []

theorem children_refill_object (items : List Json) (old : List (List Char × Json)) :
    (refillArray items (.object old)).children = items := by
  have hadd : ∀ front : List (List Char × Json),
      (items.foldl (fun json item => Json.addItemToArray item json) (.object front)).children =
        front.map Prod.snd ++ items := by
    induction items with
    | nil => simp [Json.children]
    | cons item items ih =>
      intro front
      rw [List.foldl_cons, Json.addItemToArray, ih, List.map_append, List.append_assoc]
      rfl
  exact hadd []

/-- New items are all that is found in an array or object; other values get none here. -/
theorem childrenOf_refill {json : Option Json} (h : childrenOf json = [] → items = []) :
    childrenOf (json.map (refillArray items)) = items := by
  cases json with
  | none => exact (h rfl).symm
  | some json =>
    show (refillArray items json).children = items
    cases json with
    | array old => rw [refillArray_array]; rfl
    | object old => exact children_refill_object items old
    | _ => rw [h rfl]; rfl

theorem loadDhcpConfig_children (json : Option Json) :
    loadDhcpConfig json = loadOptions (childrenOf json) := by
  cases json <;> rfl

end Arrays

section Security

variable {n : JsonNode} {key other : CString} {v : Json}

@[simp] theorem addMissing_value : (addMissing key v n).value = n.value := by
  unfold addMissing
  split <;> rfl

theorem getItem_addMissing_self : (addMissing key v n).getItem key = some ((n.getItem key).getD v) := by
  unfold addMissing
  cases h : n.getItem key with
  | none =>
    simp only [Option.isSome_none, Bool.false_eq_true, if_false, Option.getD_none]
    exact JsonNode.getItem_add_self h
  | some old => simp only [Option.isSome_some, if_true, h, Option.getD_some]

theorem getItem_addMissing_ne (hne : Json.sameKey key other = false) :
    (addMissing key v n).getItem other = n.getItem other := by
  unfold addMissing
  split
  · rfl
  · exact JsonNode.getItem_add_ne hne

theorem aclEntryStrings_ok {items : List Json} {strings : List CString}
    (h : aclEntryStrings items = .ok strings) : items = strings.map Json.string := by
  induction items generalizing strings with
  | nil =>
    cases h
    rfl
  | cons item items ih =>
    cases item with
    | string s =>
      obtain ⟨ss, hss, h⟩ := seq_ok.mp h
      obtain rfl := (Except.ok.inj h).symm
      rw [List.map_cons, ← ih hss]
    | _ => cases h

/-- The keys of the security section after it was loaded, and the strings of its list. -/
structure LoadedSecurity (n n' : JsonNode) (strings : List CString) : Prop where
  value : n'.value = n.value
  enable : n'.getItem aclEnableEntry.jsonPath =
    some ((n.getItem aclEnableEntry.jsonPath).getD (.bool true))
  mode : n'.getItem aclModeEntry.jsonPath =
    some ((n.getItem aclModeEntry.jsonPath).getD (.bool true))
  dacl : n'.getItem daclEnableEntry.jsonPath =
    some ((n.getItem daclEnableEntry.jsonPath).getD (.bool true))
  list : n'.getItem aclEntriesPath = some (.array (strings.map Json.string))
  entries : (n.getItem aclEntriesPath).getD (.array []) = .array (strings.map Json.string)

theorem loadSecurity_none {r : Option JsonNode × List CString} : loadSecurity none ≠ .ok r := by
  intro h
  cases h

theorem loadSecurity_some {security : Option JsonNode} {strings : List CString}
    (h : loadSecurity (some n) = .ok (security, strings)) :
    ∃ n', security = some n' ∧ LoadedSecurity n n' strings := by
  obtain ⟨n', hn'⟩ : ∃ n', n' = addMissing aclEntriesPath (.array [])
      (addMissing daclEnableEntry.jsonPath aclModeEntry.added
        (addMissing aclModeEntry.jsonPath aclModeEntry.added
          (addMissing aclEnableEntry.jsonPath aclEnableEntry.added n))) := ⟨_, rfl⟩
  unfold loadSecurity at h
  simp only [Option.map_some, Option.bind_some, ← hn'] at h
  split at h
  · rename_i items _ _ hitems
    obtain ⟨ss, hss, h⟩ := seq_ok.mp h
    obtain ⟨rfl, rfl⟩ := Prod.mk.inj (Except.ok.inj h)
    obtain rfl := aclEntryStrings_ok hss
    have hlist : n'.getItem aclEntriesPath = some ((n.getItem aclEntriesPath).getD (.array [])) := by
      rw [hn', getItem_addMissing_self, getItem_addMissing_ne (by decide),
        getItem_addMissing_ne (by decide), getItem_addMissing_ne (by decide)]
    refine ⟨n', rfl, ?_, ?_, ?_, ?_, hitems, Option.some.inj (hlist.symm.trans hitems)⟩
    · simp [hn']
    · rw [hn', getItem_addMissing_ne (by decide), getItem_addMissing_ne (by decide),
        getItem_addMissing_ne (by decide), getItem_addMissing_self]
      rfl
    · rw [hn', getItem_addMissing_ne (by decide), getItem_addMissing_ne (by decide),
        getItem_addMissing_self, getItem_addMissing_ne (by decide)]
      rfl
    · rw [hn', getItem_addMissing_ne (by decide), getItem_addMissing_self,
        getItem_addMissing_ne (by decide), getItem_addMissing_ne (by decide)]
      rfl
  · cases h

theorem setBoolValue_true_eq (v : Json) : setBoolValue true v = v ↔ v ≠ .bool false := by
  cases v with
  | bool b => cases b <;> simp [setBoolValue]
  | _ => simp [setBoolValue]

/-- The three switches and the list after they were written. -/
structure AppliedSecurity (n n' : JsonNode) (t : TabConfig) : Prop where
  value : n'.value = n.value
  enable : n'.getItem aclEnableEntry.jsonPath =
    (n.getItem aclEnableEntry.jsonPath).map (setBoolValue (decide (t.aclEnable.valI ≠ 0)))
  mode : n'.getItem aclModeEntry.jsonPath =
    (n.getItem aclModeEntry.jsonPath).map (setBoolValue (decide (t.aclMode.valI ≠ 0)))
  dacl : n'.getItem daclEnableEntry.jsonPath =
    (n.getItem daclEnableEntry.jsonPath).map (setBoolValue (decide (t.daclEnable.valI ≠ 0)))
  list : n'.getItem aclEntriesPath = (n.getItem aclEntriesPath).map
    (refillArray ((t.securityAclEntries.filter fun s => s ≠ []).map Json.string))

theorem applySecurity_applied {t : TabConfig} (henable : t.aclEnable.jsonPath = aclEnableEntry.jsonPath)
    (hmode : t.aclMode.jsonPath = aclModeEntry.jsonPath)
    (hdacl : t.daclEnable.jsonPath = daclEnableEntry.jsonPath) :
    AppliedSecurity n (applySecurity t n) t := by
  unfold applySecurity setSwitch
  rw [henable, hmode, hdacl]
  constructor
  · rfl
  · rw [JsonNode.getItem_modify_ne (by decide), JsonNode.getItem_modify_ne (by decide),
      JsonNode.getItem_modify_self, JsonNode.getItem_modify_ne (by decide)]
  · rw [JsonNode.getItem_modify_ne (by decide), JsonNode.getItem_modify_self,
      JsonNode.getItem_modify_ne (by decide), JsonNode.getItem_modify_ne (by decide)]
  · rw [JsonNode.getItem_modify_ne (by decide), JsonNode.getItem_modify_ne (by decide),
      JsonNode.getItem_modify_ne (by decide), JsonNode.getItem_modify_self]
  · rw [JsonNode.getItem_modify_self, JsonNode.getItem_modify_ne (by decide),
      JsonNode.getItem_modify_ne (by decide), JsonNode.getItem_modify_ne (by decide)]

end Security

section Pools

/-- The values under the keys of a pool that the server reads, and those of its options. -/
def poolKeys (p : Json) : Option Json × Option Json × Option Json × Option Json ×
    List (Option Json × Option Json × Option Json) :=
  (p.getObjectItem "name".toList, p.getObjectItem "start".toList, p.getObjectItem "end".toList,
    p.getObjectItem "subnet".toList,
    (childrenOf (p.getObjectItem "options".toList)).map optionKeys)

/-- All options of a pool are kept. -/
def PoolKept (p : Json) : Prop :=
  ∀ e ∈ childrenOf (p.getObjectItem "options".toList), OptionKept e

variable {e : Json} {es : List Json} {ps : List (PoolEntry × Json)}
  {oss : List (List OptionEntry)} {itemss : List (List Json)}

/-- A written pool has the keys it was loaded from, if its options have. -/
theorem poolKeys_poolJson {p : PoolEntry × Json} (h : loadPool e = .ok p) (items : List Json) :
    poolKeys (poolJson p.1 items) = poolKeys e ↔
      items.map optionKeys = (childrenOf (e.getObjectItem "options".toList)).map optionKeys := by
  unfold loadPool at h
  split at h
  · rename_i name start last subnet hname hstart hlast hsubnet
    split at h
    · cases h
    obtain rfl := (Except.ok.inj h).symm
    have hoptions : childrenOf (some (refillArray items (.array []))) = items := by
      rw [refillArray_array]
      rfl
    have hwritten : poolKeys (poolJson ⟨name, start, last, subnet⟩ items) =
        (some (.string name), some (.string start), some (.string last), some (.string subnet),
          (childrenOf (some (refillArray items (.array [])))).map optionKeys) := rfl
    rw [hwritten, hoptions, poolKeys, stringMember_eq_some hname, stringMember_eq_some hstart,
      stringMember_eq_some hlast, stringMember_eq_some hsubnet]
    simp only [Prod.mk.injEq, true_and]
  · cases h

theorem loadPool_options {p : PoolEntry × Json} (h : loadPool e = .ok p) :
    p.2.children = childrenOf (e.getObjectItem "options".toList) := by
  unfold loadPool at h
  split at h
  · split at h
    · cases h
    obtain rfl := (Except.ok.inj h).symm
    cases e.getObjectItem "options".toList <;> rfl
  · cases h

/-- The pools that are written have the keys they were loaded from exactly if all their options are
kept. -/
theorem pools_agree_iff (hps : loadPools es = .ok ps) (hoss : loadPoolOptions ps = .ok oss)
    (hitemss : applyPoolOptions oss = .ok itemss) :
    (List.zipWith poolJson (ps.map Prod.fst) itemss).map poolKeys = es.map poolKeys ↔
      ∀ p ∈ es, PoolKept p := by
  induction es generalizing ps oss itemss with
  | nil =>
    cases hps
    simp
  | cons e es ih =>
    obtain ⟨p, hp, hps⟩ := seq_ok.mp hps
    obtain ⟨ps', hps', hps⟩ := seq_ok.mp hps
    obtain rfl := (Except.ok.inj hps).symm
    obtain ⟨os, hos, hoss⟩ := seq_ok.mp hoss
    obtain ⟨oss', hoss', hoss⟩ := seq_ok.mp hoss
    obtain rfl := (Except.ok.inj hoss).symm
    obtain ⟨items, hitems, hitemss⟩ := seq_ok.mp hitemss
    obtain ⟨itemss', hitemss', hitemss⟩ := seq_ok.mp hitemss
    obtain rfl := (Except.ok.inj hitemss).symm
    have hhead : items.map optionKeys =
        (childrenOf (e.getObjectItem "options".toList)).map optionKeys ↔ PoolKept e := by
      rw [loadDhcpConfig, loadPool_options hp] at hos
      have hall : ∀ e, guiType e ≠ .bin → (fun _ => true) e = true := fun _ _ => rfl
      constructor
      · intro hkeys a ha
        refine (optionKept_of_agree hall hos hitems).2 ?_ a ha rfl
        rw [List.filter_true]
        exact hkeys
      · intro hkept
        obtain ⟨ws, hws, hkeys⟩ := agree_of_optionKept hall hos fun a ha _ => hkept a ha
        rw [List.filter_true] at hkeys
        obtain rfl := Except.ok.inj (hitems.symm.trans hws)
        exact hkeys
    have htail := ih hps' hoss' hitemss'
    rw [List.map_cons, List.zipWith_cons_cons, List.map_cons, List.map_cons, List.cons.injEq,
      poolKeys_poolJson hp, hhead, htail]
    simp only [List.mem_cons, forall_eq_or_imp]

/-- If all options are kept, all of them can be written. -/
theorem applyPoolOptions_ok (hps : loadPools es = .ok ps) (hoss : loadPoolOptions ps = .ok oss)
    (hkept : ∀ p ∈ es, PoolKept p) : ∃ itemss, applyPoolOptions oss = .ok itemss := by
  induction es generalizing ps oss with
  | nil =>
    cases hps
    cases hoss
    exact ⟨[], rfl⟩
  | cons e es ih =>
    obtain ⟨p, hp, hps⟩ := seq_ok.mp hps
    obtain ⟨ps', hps', hps⟩ := seq_ok.mp hps
    obtain rfl := (Except.ok.inj hps).symm
    obtain ⟨os, hos, hoss⟩ := seq_ok.mp hoss
    obtain ⟨oss', hoss', hoss⟩ := seq_ok.mp hoss
    obtain rfl := (Except.ok.inj hoss).symm
    rw [loadDhcpConfig, loadPool_options hp] at hos
    have hall : ∀ e, guiType e ≠ .bin → (fun _ => true) e = true := fun _ _ => rfl
    obtain ⟨items, hitems, -⟩ := agree_of_optionKept hall hos fun a ha _ =>
      hkept e List.mem_cons_self a ha
    obtain ⟨itemss, hitemss⟩ := ih hps' hoss' fun p hp => hkept p (List.mem_cons_of_mem _ hp)
    exact ⟨items :: itemss, seq_ok.mpr ⟨items, hitems, seq_ok.mpr ⟨itemss, hitemss, rfl⟩⟩⟩

end Pools

end DHCPServer
