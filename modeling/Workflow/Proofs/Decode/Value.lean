import Workflow.Decode.Basic
import Workflow.Proofs.Decode.Concur
import Workflow.Proofs.Dict

/-!
# Decoding values

A value has no faults, so reading it as a value of any kind gives it back, and what is read from
the written form of a text or a word is that text or word.
-/

namespace Workflow

open Json (Node Key ArrayEnd ObjectEnd)

theorem checked_eq_ok_iff {fault : Option ReadError} : checked fault = .ok () ↔ fault = none := by
  cases fault <;> simp [checked]

namespace Json

theorem array_pmap {items : List Tree} (hcanonical : (Tree.array items).Canonical) :
    array (items.pmap Json.mk hcanonical.items) = ⟨.array items, hcanonical⟩ := by
  unfold array
  congr 2
  rw [List.map_pmap, List.pmap_eq_map, List.map_id']

theorem exists_object_eq {members : List (String × Tree)}
    (hcanonical : (Tree.object members).Canonical) :
    ∃ dict : Dict Json, object dict = ⟨.object members, hcanonical⟩ ∧
      ∀ entry ∈ dict.entries, (entry.1, entry.2.tree) ∈ members := by
  let join (member : String × Tree) (h : member.2.Canonical) : String × Json := (member.1, ⟨member.2, h⟩)
  have hascending : (members.pmap join hcanonical.members).Pairwise fun a b => a.1 < b.1 :=
    hcanonical.ascending.pmap hcanonical.members fun _ _ _ _ hlt => hlt
  refine ⟨⟨members.pmap join hcanonical.members, hascending⟩, ?_, ?_⟩
  · unfold object
    congr 2
    change (members.pmap join hcanonical.members).map (fun entry => (entry.1, entry.2.tree)) = members
    rw [List.map_pmap]
    change members.pmap (fun member _ => member) hcanonical.members = members
    rw [List.pmap_eq_map, List.map_id']
  · intro entry hentry
    obtain ⟨member, hmember, rfl⟩ := List.mem_pmap.mp hentry
    exact hmember

theorem array_injective : Function.Injective array := by
  intro a b heq
  have hitems := congrArg items? heq
  rw [items?_array, items?_array] at hitems
  exact Option.some.inj hitems

theorem object_injective : Function.Injective object := by
  intro a b heq
  have hmembers := congrArg members? heq
  rw [members?_object, members?_object] at hmembers
  exact Option.some.inj hmembers

/-- Induction over values, with the members of an object in a dictionary. -/
@[elab_as_elim]
theorem induction {motive : Json → Prop} (null : motive null)
    (bool : ∀ value, motive (bool value)) (number : ∀ value, motive (number value))
    (text : ∀ value, motive (text value))
    (array : ∀ items : List Json, (∀ item ∈ items, motive item) → motive (array items))
    (object : ∀ members : Dict Json,
      (∀ entry ∈ members.entries, motive entry.2) → motive (object members)) :
    ∀ json, motive json
  | ⟨.null, _⟩ => null
  | ⟨.bool value, _⟩ => bool value
  | ⟨.number value, _⟩ => number value
  | ⟨.text value, _⟩ => text value
  | ⟨.array items, hcanonical⟩ => by
      rw [← array_pmap hcanonical]
      refine array _ fun item hitem => ?_
      obtain ⟨tree, htree, rfl⟩ := List.mem_pmap.mp hitem
      exact induction null bool number text array object ⟨tree, _⟩
  | ⟨.object members, hcanonical⟩ => by
      obtain ⟨dict, hdict, hmem⟩ := exists_object_eq hcanonical
      rw [← hdict]
      refine object dict fun entry hentry => ?_
      have hmember := hmem entry hentry
      exact induction null bool number text array object entry.2
termination_by json => sizeOf json.tree
decreasing_by
  · have := List.sizeOf_lt_of_mem htree
    simp only [Tree.array.sizeOf_spec]
    omega
  · have := List.sizeOf_lt_of_mem hmember
    simp only [Tree.object.sizeOf_spec, Prod.mk.sizeOf_spec] at this ⊢
    omega

theorem node_array (items : List Json) :
    (array items).node = .array (items.map (·.node)) .closed := by
  have hnodes : ∀ items : List Json, Tree.nodes (items.map (·.tree)) = items.map (·.node) := by
    intro items
    induction items with
    | nil => rfl
    | cons item rest ih => rw [List.map_cons, Tree.nodes, ih]; rfl
  exact congrArg (Node.array · .closed) (hnodes items)

theorem node_object (members : Dict Json) :
    (object members).node =
      .object (members.entries.map fun entry => (.ok entry.1, entry.2.node)) .closed := by
  have hnodes : ∀ entries : List (String × Json),
      Tree.memberNodes (entries.map fun entry => (entry.1, entry.2.tree)) =
        entries.map fun entry => (.ok entry.1, entry.2.node) := by
    intro entries
    induction entries with
    | nil => rfl
    | cons entry rest ih => rw [List.map_cons, Tree.memberNodes, ih]; rfl
  exact congrArg (Node.object · .closed) (hnodes members.entries)

/-- The member is read as the entry. -/
structure Gives (origin : Origin) (member : Key × Node) (entry : String × Json) : Prop where
  key : member.1 = .ok entry.1
  value : member.2.toJson origin = .ok entry.2

section Read

variable {origin inner : Origin} {items : List Node} {values : List Json}
  {members : List (Key × Node)} {entries : List (String × Json)} {value : Json}

theorem itemsToJson_eq_ok_iff :
    itemsToJson origin items = .ok values ↔
      List.Forall₂ (fun item value => item.toJson origin = .ok value) items values := by
  constructor
  · intro h
    induction items generalizing values with
    | nil =>
        cases h
        exact .nil
    | cons item rest ih =>
        rw [itemsToJson] at h
        obtain ⟨value, hvalue, h⟩ := ok_of_bind h
        obtain ⟨others, hothers, h⟩ := ok_of_bind h
        cases h
        exact .cons hvalue (ih hothers)
  · intro h
    induction h with
    | nil => rfl
    | cons hvalue _ ih =>
        rw [itemsToJson, hvalue, ih]
        rfl

theorem membersToJson_eq_ok_iff {dict result : Dict Json} :
    membersToJson origin members dict = .ok result ↔
      ∃ entries, List.Forall₂ (Gives origin) members entries ∧
        entries.foldl (fun dict entry => dict.insert entry.1 entry.2) dict = result := by
  constructor
  · intro h
    induction members generalizing dict with
    | nil =>
        cases h
        exact ⟨[], .nil, rfl⟩
    | cons member rest ih =>
        obtain ⟨key, node⟩ := member
        rw [membersToJson] at h
        obtain ⟨name, hkey, h⟩ := ok_of_bind h
        obtain ⟨value, hvalue, h⟩ := ok_of_bind h
        obtain ⟨entries, hentries, hresult⟩ := ih h
        have hname : key = .ok name := by
          cases key with
          | ok key => rw [Except.ok.inj hkey]
          | error fault => cases hkey
        exact ⟨(name, value) :: entries, .cons ⟨hname, hvalue⟩ hentries, hresult⟩
  · rintro ⟨entries, hentries, hresult⟩
    induction hentries generalizing dict with
    | nil => exact congrArg Except.ok hresult
    | @cons member entry _ _ hgives _ ih =>
        obtain ⟨key, node⟩ := member
        obtain ⟨rfl, hvalue⟩ := hgives
        change (node.toJson origin >>= fun value => _) = _
        rw [hvalue]
        exact ih hresult

theorem toJson_array_eq_ok_iff {ending : ArrayEnd} :
    (Node.array items ending).toJson origin = .ok value ↔
      ∃ inner values, origin.enter = .ok inner ∧
        List.Forall₂ (fun item value => item.toJson inner = .ok value) items values ∧
        ending.fault? = none ∧ array values = value := by
  rw [Node.toJson]
  constructor
  · intro h
    cases henter : origin.enter with
    | error error =>
        rw [henter] at h
        cases h
    | ok inner =>
        rw [henter] at h
        obtain ⟨values, hvalues, h⟩ := ok_of_bind h
        obtain ⟨_, hending, h⟩ := ok_of_bind h
        exact ⟨inner, values, rfl, itemsToJson_eq_ok_iff.mp hvalues, checked_eq_ok_iff.mp hending,
          Except.ok.inj h⟩
  · rintro ⟨inner, values, henter, hvalues, hending, rfl⟩
    simp only [henter, itemsToJson_eq_ok_iff.mpr hvalues, hending]
    rfl

theorem toJson_object_eq_ok_iff {ending : ObjectEnd} :
    (Node.object members ending).toJson origin = .ok value ↔
      ∃ inner entries, origin.enter = .ok inner ∧ List.Forall₂ (Gives inner) members entries ∧
        ending.fault? = none ∧ object (.ofList entries) = value := by
  rw [Node.toJson]
  constructor
  · intro h
    cases henter : origin.enter with
    | error error =>
        rw [henter] at h
        cases h
    | ok inner =>
        rw [henter] at h
        obtain ⟨dict, hdict, h⟩ := ok_of_bind h
        obtain ⟨_, hending, h⟩ := ok_of_bind h
        obtain ⟨entries, hentries, rfl⟩ := membersToJson_eq_ok_iff.mp hdict
        exact ⟨inner, entries, rfl, hentries, checked_eq_ok_iff.mp hending, Except.ok.inj h⟩
  · rintro ⟨inner, entries, henter, hentries, hending, rfl⟩
    have hdict : membersToJson inner members .empty = .ok (.ofList entries) :=
      membersToJson_eq_ok_iff.mpr ⟨entries, hentries, rfl⟩
    simp only [henter, hdict, hending]
    rfl

end Read

theorem forall₂_map_node {origin : Origin} {items : List Json}
    (h : ∀ item ∈ items, item.node.toJson origin = .ok item) :
    List.Forall₂ (fun item value => item.toJson origin = .ok value) (items.map (·.node)) items := by
  rw [List.forall₂_map_left_iff, List.forall₂_same]
  exact h

theorem gives_map_node {origin : Origin} {entries : List (String × Json)}
    (h : ∀ entry ∈ entries, entry.2.node.toJson origin = .ok entry.2) :
    List.Forall₂ (Gives origin) (entries.map fun entry => (.ok entry.1, entry.2.node)) entries := by
  rw [List.forall₂_map_left_iff, List.forall₂_same]
  exact fun entry hentry => ⟨rfl, h entry hentry⟩

/-- Outside a text nothing limits the depth, and a value is read as itself. -/
theorem toJson_node {origin : Origin} (horigin : origin.enter = .ok origin) (json : Json) :
    json.node.toJson origin = .ok json := by
  induction json using Json.induction with
  | null | bool | number | text => rfl
  | array items ih =>
      rw [node_array]
      exact toJson_array_eq_ok_iff.mpr ⟨origin, items, horigin, forall₂_map_node ih, rfl, rfl⟩
  | object members ih =>
      rw [node_object]
      exact toJson_object_eq_ok_iff.mpr ⟨origin, members.entries, horigin, gives_map_node ih, rfl,
        congrArg object members.ofList_entries⟩

end Json

namespace Decoder

section Enter

variable {α : Type} {decode : Decoder α} {origin inner : Origin}

theorem list_array {items : List Node} {ending : ArrayEnd}
    (henter : origin.enter = .ok inner) (hending : ending.fault? = none) :
    decode.list origin (.array items ending) = items.mapM (decode inner) := by
  change (origin.enter >>= fun inner => items.mapM (decode inner) >>= fun values =>
    checked ending.fault? >>= fun _ => pure values) = _
  rw [henter, hending]
  exact bind_pure (m := Except DecodeError) _

theorem dict_object {members : List (Key × Node)} {ending : ObjectEnd}
    (henter : origin.enter = .ok inner) (hending : ending.fault? = none) :
    decode.dict origin (.object members ending) = entries decode inner members .empty := by
  change (origin.enter >>= fun inner => entries decode inner members .empty >>= fun values =>
    checked ending.fault? >>= fun _ => pure values) = _
  rw [henter, hending]
  exact bind_pure (m := Except DecodeError) _

end Enter

@[simp]
theorem json_ofJson (value : Json) : json.ofJson value = .ok value :=
  Json.toJson_node rfl value

@[simp]
theorem text_ofJson (value : String) : text.ofJson (.text value) = .ok value := rfl

theorem natural_ofNat {size n : Nat} (origin : Origin) (expected : Expected) (hn : n < UInt64.size)
    (hsize : n < size) : natural size expected origin (Json.ofNat n hn).node = .ok n := by
  change (if 0 ≤ (n : Int) ∧ (n : Int) < size then Except.ok (n : Int).toNat else _) = _
  rw [if_pos ⟨Int.natCast_nonneg n, by exact_mod_cast hsize⟩, Int.toNat_natCast]

@[simp]
theorem word32_ofJson (word : UInt32) : word32.ofJson (.ofUInt32 word) = .ok word := by
  unfold word32 ofJson Json.ofUInt32
  beta_reduce
  rw [natural_ofNat .value .word32 _ word.toNat_lt_size]
  exact congrArg Except.ok UInt32.ofNat_toNat

@[simp]
theorem word64_ofJson (word : UInt64) : word64.ofJson (.ofUInt64 word) = .ok word := by
  unfold word64 ofJson Json.ofUInt64
  beta_reduce
  rw [natural_ofNat .value .word64 _ word.toNat_lt_size]
  exact congrArg Except.ok UInt64.ofNat_toNat

end Decoder

theorem Json.ofUInt32_injective {word other : UInt32} (h : ofUInt32 word = ofUInt32 other) :
    word = other := by
  have hread := congrArg Decoder.word32.ofJson h
  rw [Decoder.word32_ofJson, Decoder.word32_ofJson] at hread
  exact Except.ok.inj hread

end Workflow
