import DHCPServer.Framework.Json

namespace DHCPServer

namespace Json

variable {key other : List Char} {f : Json → Json} {v : Json} {members : List (List Char × Json)}

@[simp] theorem sameKey_self (key : List Char) : sameKey key key = true := by
  simp [sameKey]

theorem sameKey_comm (a b : List Char) : sameKey a b = sameKey b a := by
  simp only [sameKey, Bool.beq_comm]

/-- Keys that are the same are found and missed together. -/
theorem sameKey_congr {a b : List Char} (h : sameKey a b = true) (c : List Char) :
    sameKey a c = sameKey b c := by
  have heq : a.map Char.toLower = b.map Char.toLower := by simpa [sameKey] using h
  simp only [sameKey, heq]

/-- The value of the first member with the key. -/
def findMember (key : List Char) (members : List (List Char × Json)) : Option Json :=
  (members.find? fun m => sameKey m.1 key).map Prod.snd

theorem findMember_cons (m : List Char × Json) (members : List (List Char × Json)) :
    findMember key (m :: members) = if sameKey m.1 key then some m.2 else findMember key members := by
  rw [findMember, List.find?_cons]
  cases h : sameKey m.1 key <;> simp [findMember]

theorem findMember_append (member : List Char × Json) :
    findMember key (members ++ [member]) =
      (findMember key members).or (if sameKey member.1 key then some member.2 else none) := by
  induction members with
  | nil => simp [findMember]
  | cons m members ih =>
    rw [List.cons_append, findMember_cons, findMember_cons, ih]
    split <;> simp

/-- A changed member is found with its new value. -/
theorem findMember_modify_self :
    findMember key (modifyMembers key f members) = (findMember key members).map f := by
  induction members with
  | nil => rfl
  | cons m members ih =>
    rw [modifyMembers, findMember_cons]
    cases h : sameKey m.1 key
    · simp [findMember_cons, h, ih]
    · simp [findMember_cons, h]

/-- Members with other keys are left alone. -/
theorem findMember_modify_ne (hne : sameKey key other = false) :
    findMember other (modifyMembers key f members) = findMember other members := by
  induction members with
  | nil => rfl
  | cons m members ih =>
    rw [modifyMembers]
    cases h : sameKey m.1 key
    · simp only [Bool.false_eq_true, if_false, findMember_cons, ih]
    · have hm : sameKey m.1 other = false := by rw [sameKey_congr h, hne]
      simp only [if_true, findMember_cons, hm, Bool.false_eq_true, if_false]

theorem getObjectItem_modify_self (v : Json) :
    getObjectItem key (modifyObjectItem key f v) = (getObjectItem key v).map f := by
  cases v with
  | object members => exact findMember_modify_self
  | _ => rfl

theorem getObjectItem_modify_ne (hne : sameKey key other = false) (v : Json) :
    getObjectItem other (modifyObjectItem key f v) = getObjectItem other v := by
  cases v with
  | object members => exact findMember_modify_ne hne
  | _ => rfl

/-- The children with their keys; the items of an array have none. -/
def keyedChildren : Json → List (List Char × Json)
  | .array items => items.map fun v => ([], v)
  | .object members => members
  | _ => []

end Json

/-- A value as the library keeps it in memory. Children can be hung below a value of any kind and
are found there; the kind decides what is printed. -/
structure JsonNode where
  value : Json
  members : List (List Char × Json)

namespace JsonNode

open Json

variable {n : JsonNode} {key other : List Char} {f : Json → Json} {v : Json}

def ofJson (v : Json) : JsonNode := ⟨v, v.keyedChildren⟩

def toJson (n : JsonNode) : Json :=
  match n.value with
  | .object _ => .object n.members
  | .array _ => .array (n.members.map Prod.snd)
  | v => v

def getItem (key : List Char) (n : JsonNode) : Option Json := findMember key n.members

def addItem (key : List Char) (v : Json) (n : JsonNode) : JsonNode :=
  { n with members := n.members ++ [(key, v)] }

def modifyItem (key : List Char) (f : Json → Json) (n : JsonNode) : JsonNode :=
  { n with members := modifyMembers key f n.members }

@[simp] theorem addItem_value : (n.addItem key v).value = n.value := rfl

@[simp] theorem modifyItem_value : (n.modifyItem key f).value = n.value := rfl

theorem getItem_add_self (h : n.getItem key = none) : (n.addItem key v).getItem key = some v := by
  have hnone : findMember key n.members = none := h
  rw [getItem, addItem, findMember_append, hnone]
  simp

theorem getItem_add_ne (hne : sameKey key other = false) :
    (n.addItem key v).getItem other = n.getItem other := by
  rw [getItem, addItem, findMember_append]
  simp [hne, getItem]

theorem getItem_modify_self : (n.modifyItem key f).getItem key = (n.getItem key).map f :=
  findMember_modify_self

theorem getItem_modify_ne (hne : sameKey key other = false) :
    (n.modifyItem key f).getItem other = n.getItem other :=
  findMember_modify_ne hne

/-- The members of an object are found in what is printed. -/
theorem getObjectItem_toJson {members : List (List Char × Json)} (h : n.value = .object members) :
    n.toJson.getObjectItem key = n.getItem key := by
  rw [toJson, h]
  rfl

/-- Nothing is found in what is printed of a value of another kind. -/
theorem getObjectItem_toJson_none (h : ∀ members, n.value ≠ .object members) :
    n.toJson.getObjectItem key = none := by
  rw [toJson]
  cases hv : n.value with
  | object members => exact absurd hv (h members)
  | _ => rfl

theorem getItem_ofJson_object (key : List Char) (members : List (List Char × Json)) :
    (ofJson (.object members)).getItem key = getObjectItem key (.object members) := rfl

end JsonNode

end DHCPServer
