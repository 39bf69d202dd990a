import Workflow.Dict
import Workflow.Json.Double
/-!
JSON values. A `Json.Tree` is any arrangement of parts; a `Json` is a tree in which the members of
every object ascend by name, so equal values are equal trees.
-/

namespace Workflow

/-- An integer of at most 64 bits, signed or unsigned, or a double. -/
inductive Number where
  | integer (value : Int) (low : -0x8000000000000000 ≤ value) (high : value < 0x10000000000000000)
  | double (value : Double)
  deriving DecidableEq

namespace Number

def ofNat (n : Nat) (h : n < UInt64.size) : Number :=
  .integer n (by omega) (Int.ofNat_lt.mpr h)

/-- Equality of values, under which the two zero doubles are equal. -/
def sameValue : Number → Number → Bool
  | .integer m _ _, .integer n _ _ => m == n
  | .double x, .double y => x.sameValue y
  | _, _ => false

end Number

namespace Json

inductive Tree where
  | null
  | bool (value : Bool)
  | number (value : Number)
  | text (value : String)
  | array (items : List Tree)
  | object (members : List (String × Tree))

namespace Tree

mutual

def decEq : (s t : Tree) → Decidable (s = t)
  | .null, .null => isTrue rfl
  | .bool a, .bool b =>
    if h : a = b then isTrue (by rw [h]) else isFalse (by simpa using h)
  | .number a, .number b =>
    if h : a = b then isTrue (by rw [h]) else isFalse (by simpa using h)
  | .text a, .text b =>
    if h : a = b then isTrue (by rw [h]) else isFalse (by simpa using h)
  | .array xs, .array ys =>
    match decEqItems xs ys with
    | isTrue h => isTrue (by rw [h])
    | isFalse h => isFalse (by simpa using h)
  | .object xs, .object ys =>
    match decEqMembers xs ys with
    | isTrue h => isTrue (by rw [h])
    | isFalse h => isFalse (by simpa using h)
  | .null, .bool _ | .null, .number _ | .null, .text _ | .null, .array _ | .null, .object _
  | .bool _, .null | .bool _, .number _ | .bool _, .text _ | .bool _, .array _
  | .bool _, .object _ | .number _, .null | .number _, .bool _ | .number _, .text _
  | .number _, .array _ | .number _, .object _ | .text _, .null | .text _, .bool _
  | .text _, .number _ | .text _, .array _ | .text _, .object _ | .array _, .null
  | .array _, .bool _ | .array _, .number _ | .array _, .text _ | .array _, .object _
  | .object _, .null | .object _, .bool _ | .object _, .number _ | .object _, .text _
  | .object _, .array _ => isFalse (by simp)

def decEqItems : (xs ys : List Tree) → Decidable (xs = ys)
  | [], [] => isTrue rfl
  | [], _ :: _ => isFalse (by simp)
  | _ :: _, [] => isFalse (by simp)
  | x :: xs, y :: ys =>
    match decEq x y, decEqItems xs ys with
    | isTrue h, isTrue hs => isTrue (by rw [h, hs])
    | isFalse h, _ => isFalse (by simp [h])
    | _, isFalse hs => isFalse (by simp [hs])

def decEqMembers : (xs ys : List (String × Tree)) → Decidable (xs = ys)
  | [], [] => isTrue rfl
  | [], _ :: _ => isFalse (by simp)
  | _ :: _, [] => isFalse (by simp)
  | (k, x) :: xs, (l, y) :: ys =>
    if hk : k = l then
      match decEq x y, decEqMembers xs ys with
      | isTrue h, isTrue hs => isTrue (by rw [hk, h, hs])
      | isFalse h, _ => isFalse (by simp [h])
      | _, isFalse hs => isFalse (by simp [hs])
    else isFalse (by simp [hk])

end

instance : DecidableEq Tree := decEq

mutual

/-- Equality of values, under which the two zero doubles are equal. -/
def sameValue : Tree → Tree → Bool
  | .number a, .number b => a.sameValue b
  | .array xs, .array ys => sameItems xs ys
  | .object xs, .object ys => sameMembers xs ys
  | .null, .null => true
  | .bool a, .bool b => a == b
  | .text a, .text b => a == b
  | _, _ => false

def sameItems : List Tree → List Tree → Bool
  | [], [] => true
  | x :: xs, y :: ys => sameValue x y && sameItems xs ys
  | _, _ => false

def sameMembers : List (String × Tree) → List (String × Tree) → Bool
  | [], [] => true
  | (k, x) :: xs, (l, y) :: ys => k == l && sameValue x y && sameMembers xs ys
  | _, _ => false

end

/-- The members of every object ascend by name. -/
inductive Canonical : Tree → Prop
  | null : Canonical .null
  | bool (value : Bool) : Canonical (.bool value)
  | number (value : Number) : Canonical (.number value)
  | text (value : String) : Canonical (.text value)
  | array {items : List Tree} (h : ∀ item ∈ items, Canonical item) : Canonical (.array items)
  | object {members : List (String × Tree)}
      (ascending : members.Pairwise fun a b => a.1 < b.1)
      (h : ∀ member ∈ members, Canonical member.2) : Canonical (.object members)

end Tree

end Json

structure Json where
  tree : Json.Tree
  canonical : tree.Canonical
  deriving DecidableEq

namespace Json

def null : Json := ⟨.null, .null⟩

instance : Inhabited Json := ⟨.null⟩

def bool (value : Bool) : Json := ⟨.bool value, .bool value⟩

def number (value : Number) : Json := ⟨.number value, .number value⟩

def text (value : String) : Json := ⟨.text value, .text value⟩

def array (items : List Json) : Json :=
  { tree := .array (items.map (·.tree))
    canonical := .array fun item h => by
      obtain ⟨json, _, rfl⟩ := List.mem_map.1 h
      exact json.canonical }

def object (members : Dict Json) : Json :=
  { tree := .object (members.map (·.tree)).entries
    canonical := .object (members.map (·.tree)).ascending fun member h => by
      obtain ⟨entry, _, rfl⟩ := List.mem_map.1 h
      exact entry.2.canonical }

def emptyObject : Json := object .empty

/-- The object with the given members, whatever their order. -/
def record (members : List (String × Json)) : Json :=
  object (.ofList members)

def ofNat (n : Nat) (h : n < UInt64.size) : Json :=
  number (.ofNat n h)

def ofUInt64 (n : UInt64) : Json :=
  ofNat n.toNat n.toNat_lt_size

def ofUInt32 (n : UInt32) : Json :=
  ofNat n.toNat (Nat.lt_trans n.toNat_lt_size (by decide))

/-- Null for nothing. -/
def ofOption {α : Type} (encode : α → Json) : Option α → Json
  | some value => encode value
  | none => null

def isNull (json : Json) : Bool :=
  json == null

def isText (json : Json) : Bool :=
  match json.tree with
  | .text _ => true
  | _ => false

/-- Equality of values, under which the two zero doubles are equal. -/
def sameValue (a b : Json) : Bool :=
  a.tree.sameValue b.tree

theorem Tree.Canonical.items {items : List Tree} (h : (Tree.array items).Canonical) :
    ∀ item ∈ items, item.Canonical := by
  cases h with
  | array h => exact h

theorem Tree.Canonical.members {members : List (String × Tree)}
    (h : (Tree.object members).Canonical) : ∀ member ∈ members, member.2.Canonical := by
  cases h with
  | object _ h => exact h

theorem Tree.Canonical.ascending {members : List (String × Tree)}
    (h : (Tree.object members).Canonical) : members.Pairwise fun a b => a.1 < b.1 := by
  cases h with
  | object ascending _ => exact ascending

def items? : Json → Option (List Json)
  | ⟨.array items, h⟩ => some (items.pmap Json.mk h.items)
  | _ => none

def members? : Json → Option (Dict Json)
  | ⟨.object members, h⟩ =>
    some
      { entries := members.pmap (fun member canonical => (member.1, ⟨member.2, canonical⟩)) h.members
        ascending := h.ascending.pmap _ fun _ _ _ _ hlt => hlt }
  | _ => none

theorem pmap_mk_map_tree (items : List Json) (h : ∀ item ∈ items.map (·.tree), item.Canonical) :
    (items.map (·.tree)).pmap Json.mk h = items := by
  induction items with
  | nil => rfl
  | cons item rest ih => simp only [List.map_cons, List.pmap_cons, ih]

theorem pmap_mk_map_members (members : List (String × Json))
    (h : ∀ member ∈ members.map fun member => (member.1, member.2.tree), member.2.Canonical) :
    (members.map fun member => (member.1, member.2.tree)).pmap
      (fun member canonical => (member.1, (⟨member.2, canonical⟩ : Json))) h = members := by
  induction members with
  | nil => rfl
  | cons member rest ih => simp only [List.map_cons, List.pmap_cons, ih]

@[simp] theorem items?_array (items : List Json) : (array items).items? = some items :=
  congrArg some (pmap_mk_map_tree items _)

@[simp] theorem members?_object (members : Dict Json) :
    (object members).members? = some members := by
  obtain ⟨entries, ascending⟩ := members
  refine congrArg some ?_
  simp only [Dict.mk.injEq]
  exact pmap_mk_map_members entries _

end Json

end Workflow
