import Workflow.Proofs.Decode.Value

/-!
# Nodes that are values

A node that can be read as a value has no fault in any of its parts: it is a plain value, or its
parts can be read in turn. So it can be passed over as well, and where nothing limits the depth the
same value is read.
-/

namespace Workflow

theorem exists_of_forall₂ {α β : Type} {R : α → β → Prop} {xs : List α} {ys : List β}
    (h : List.Forall₂ R xs ys) {x : α} (hmem : x ∈ xs) : ∃ y, R x y := by
  induction h with
  | nil => cases hmem
  | cons hhead _ ih =>
      rcases List.mem_cons.mp hmem with rfl | hmem
      · exact ⟨_, hhead⟩
      · exact ih hmem

namespace Json

namespace Node

/-- Induction over nodes, with the parts of arrays and objects as members of lists. -/
@[elab_as_elim]
theorem induction {motive : Node → Prop} (null : motive .null) (bool : ∀ value, motive (.bool value))
    (number : ∀ value, motive (.number value)) (text : ∀ value, motive (.text value))
    (array : ∀ items ending, (∀ item ∈ items, motive item) → motive (.array items ending))
    (object : ∀ members ending, (∀ member ∈ members, motive member.2) →
      motive (.object members ending))
    (misspelled : ∀ error, motive (.misspelled error)) (absent : ∀ error, motive (.absent error)) :
    ∀ node, motive node
  | .null => null
  | .bool value => bool value
  | .number value => number value
  | .text value => text value
  | .array items ending => array items ending fun item _ =>
      induction null bool number text array object misspelled absent item
  | .object members ending => object members ending fun member _ =>
      induction null bool number text array object misspelled absent member.2
  | .misspelled error => misspelled error
  | .absent error => absent error
termination_by node => sizeOf node
decreasing_by
  · have := List.sizeOf_lt_of_mem ‹item ∈ items›
    simp only [Node.array.sizeOf_spec]
    omega
  · have hmember := List.sizeOf_lt_of_mem ‹member ∈ members›
    obtain ⟨key, value⟩ := member
    simp only [Node.object.sizeOf_spec, Prod.mk.sizeOf_spec] at hmember ⊢
    omega

/-- No object repeats a key. -/
inductive DistinctKeys : Node → Prop
  | null : DistinctKeys .null
  | bool (value : Bool) : DistinctKeys (.bool value)
  | number (value : Except Fault Number) : DistinctKeys (.number value)
  | text (value : Except Fault String) : DistinctKeys (.text value)
  | array {items : List Node} {ending : ArrayEnd} (h : ∀ item ∈ items, DistinctKeys item) :
      DistinctKeys (.array items ending)
  | object {members : List (Key × Node)} {ending : ObjectEnd} (hnodup : (members.map (·.1)).Nodup)
      (h : ∀ member ∈ members, DistinctKeys member.2) : DistinctKeys (.object members ending)
  | misspelled (error : ReadError) : DistinctKeys (.misspelled error)
  | absent (error : ReadError) : DistinctKeys (.absent error)

theorem DistinctKeys.items {items : List Node} {ending : ArrayEnd}
    (h : (Node.array items ending).DistinctKeys) : ∀ item ∈ items, item.DistinctKeys := by
  cases h with
  | array h => exact h

theorem DistinctKeys.keys {members : List (Key × Node)} {ending : ObjectEnd}
    (h : (Node.object members ending).DistinctKeys) : (members.map (·.1)).Nodup := by
  cases h with
  | object hnodup _ => exact hnodup

theorem DistinctKeys.members {members : List (Key × Node)} {ending : ObjectEnd}
    (h : (Node.object members ending).DistinctKeys) : ∀ member ∈ members, member.2.DistinctKeys := by
  cases h with
  | object _ h => exact h

end Node

/-- The node as what it is read as: a plain value, or an array or object of parts that are read. -/
inductive Node.Denotes (origin : Origin) : Node → Json → Prop
  | null : Denotes origin .null .null
  | bool (value : Bool) : Denotes origin (.bool value) (.bool value)
  | number (value : Number) : Denotes origin (.number (.ok value)) (.number value)
  | text (value : String) : Denotes origin (.text (.ok value)) (.text value)
  | array {inner : Origin} {items : List Node} {values : List Json} {ending : ArrayEnd}
      (henter : origin.enter = .ok inner)
      (hvalues : List.Forall₂ (fun item value => item.toJson inner = .ok value) items values)
      (hending : ending.fault? = none) : Denotes origin (.array items ending) (.array values)
  | object {inner : Origin} {members : List (Key × Node)} {entries : List (String × Json)}
      {ending : ObjectEnd} (henter : origin.enter = .ok inner)
      (hentries : List.Forall₂ (Gives inner) members entries) (hending : ending.fault? = none) :
      Denotes origin (.object members ending) (.object (.ofList entries))

theorem Node.denotes_of_toJson {origin : Origin} {node : Node} {value : Json}
    (h : node.toJson origin = .ok value) : node.Denotes origin value := by
  cases node with
  | null =>
      cases h
      exact .null
  | bool content =>
      cases h
      exact .bool content
  | number content =>
      cases content with
      | ok content =>
          cases h
          exact .number content
      | error fault => cases h
  | text content =>
      cases content with
      | ok content =>
          cases h
          exact .text content
      | error fault => cases h
  | array items ending =>
      obtain ⟨inner, values, henter, hvalues, hending, rfl⟩ := toJson_array_eq_ok_iff.mp h
      exact .array henter hvalues hending
  | object members ending =>
      obtain ⟨inner, entries, henter, hentries, hending, rfl⟩ := toJson_object_eq_ok_iff.mp h
      exact .object henter hentries hending
  | misspelled error => cases h
  | absent error => cases h

/-- Where there is no limit the same value is read. -/
theorem toJson_unlimited {origin other : Origin} (hother : other.enter = .ok other) {node : Node}
    {value : Json} (h : node.toJson origin = .ok value) : node.toJson other = .ok value := by
  induction node using Node.induction generalizing origin value with
  | null | bool | misspelled | absent => exact h
  | number content => cases content <;> exact h
  | text content => cases content <;> exact h
  | array items ending ih =>
      obtain ⟨inner, values, _, hvalues, hending, heq⟩ := toJson_array_eq_ok_iff.mp h
      refine toJson_array_eq_ok_iff.mpr ⟨other, values, hother, ?_, hending, heq⟩
      refine (List.forall₂_and_left _ _ |>.mpr ⟨ih, hvalues⟩).imp ?_
      rintro item value ⟨hitem, hvalue⟩
      exact hitem hvalue
  | object members ending ih =>
      obtain ⟨inner, entries, _, hentries, hending, heq⟩ := toJson_object_eq_ok_iff.mp h
      refine toJson_object_eq_ok_iff.mpr ⟨other, entries, hother, ?_, hending, heq⟩
      refine (List.forall₂_and_left _ _ |>.mpr ⟨ih, hentries⟩).imp ?_
      rintro member entry ⟨hmember, hgives⟩
      exact ⟨hgives.key, hmember hgives.value⟩

theorem Gives.unlimited {origin other : Origin} {member : Key × Node} {entry : String × Json}
    (h : Gives origin member entry) (hother : other.enter = .ok other) : Gives other member entry :=
  ⟨h.key, toJson_unlimited hother h.value⟩

/-- An array that can be read ends well, or does not get to its end. -/
theorem ArrayEnd.fault?_eq_none_iff {ending : ArrayEnd} :
    ending.fault? = none ↔ ending = .closed ∨ ending = .unreached := by
  cases ending <;> simp [fault?]

theorem ObjectEnd.fault?_eq_none_iff {ending : ObjectEnd} :
    ending.fault? = none ↔ ending = .closed ∨ ending = .unreached := by
  cases ending <;> simp [fault?]

theorem skipItems?_of_forall {items : List Node} (h : ∀ item ∈ items, item.skipFault? = none) :
    Node.skipItems? items = none := by
  induction items with
  | nil => rfl
  | cons item rest ih =>
      rw [Node.skipItems?, h item List.mem_cons_self, Option.none_or]
      exact ih fun other hmem => h other (List.mem_cons_of_mem _ hmem)

theorem skipMembers?_of_gives {origin : Origin} {members : List (Key × Node)}
    {entries : List (String × Json)} (hgives : List.Forall₂ (Gives origin) members entries)
    (h : ∀ member ∈ members, member.2.skipFault? = none) : Node.skipMembers? members = none := by
  induction hgives with
  | nil => rfl
  | @cons member entry _ _ hgives _ ih =>
      obtain ⟨key, node⟩ := member
      obtain ⟨rfl, -⟩ := hgives
      rw [Node.skipMembers?, h _ List.mem_cons_self, Option.none_or]
      exact ih fun other hmem => h other (List.mem_cons_of_mem _ hmem)

/-- What can be read can be passed over. -/
theorem skipFault?_of_toJson {origin : Origin} {node : Node} {value : Json}
    (h : node.toJson origin = .ok value) : node.skipFault? = none := by
  induction node using Node.induction generalizing origin value with
  | null | bool => rfl
  | number content => cases content with
    | ok => rfl
    | error => cases h
  | text content => cases content with
    | ok => rfl
    | error => cases h
  | array items ending ih =>
      obtain ⟨inner, values, _, hvalues, hending, _⟩ := toJson_array_eq_ok_iff.mp h
      have hitems : ∀ item ∈ items, item.skipFault? = none := by
        intro item hmem
        obtain ⟨value, hvalue⟩ := exists_of_forall₂ hvalues hmem
        exact ih item hmem hvalue
      rw [Node.skipFault?, skipItems?_of_forall hitems, Option.none_or]
      rcases ArrayEnd.fault?_eq_none_iff.mp hending with rfl | rfl <;> rfl
  | object members ending ih =>
      obtain ⟨inner, entries, _, hentries, hending, _⟩ := toJson_object_eq_ok_iff.mp h
      have hmembers : ∀ member ∈ members, member.2.skipFault? = none := by
        intro member hmem
        obtain ⟨entry, hgives⟩ := exists_of_forall₂ hentries hmem
        exact ih member hmem hgives.value
      rw [Node.skipFault?, skipMembers?_of_gives hentries hmembers, Option.none_or]
      rcases ObjectEnd.fault?_eq_none_iff.mp hending with rfl | rfl <;> rfl
  | misspelled | absent => cases h

theorem skip_of_toJson {origin : Origin} {node : Node} {value : Json}
    (h : node.toJson origin = .ok value) : node.skip = .ok () :=
  checked_eq_ok_iff.mpr (skipFault?_of_toJson h)

/-- Members with different keys give entries with different keys. -/
theorem nodup_of_gives {origin : Origin} {members : List (Key × Node)}
    {entries : List (String × Json)} (hgives : List.Forall₂ (Gives origin) members entries)
    (hnodup : (members.map (·.1)).Nodup) : (entries.map (·.1)).Nodup := by
  have hkeys : members.map (·.1) = (entries.map (·.1)).map Except.ok := by
    clear hnodup
    induction hgives with
    | nil => rfl
    | cons hgives _ ih => rw [List.map_cons, List.map_cons, List.map_cons, ih, hgives.key]
  rw [hkeys] at hnodup
  exact hnodup.of_map

/-- A value holds no key twice. -/
theorem distinctKeys_node (json : Json) : json.node.DistinctKeys := by
  induction json using Json.induction with
  | null => exact .null
  | bool value => exact .bool value
  | number value => exact .number _
  | text value => exact .text _
  | array items ih =>
      rw [node_array]
      refine .array fun node hnode => ?_
      obtain ⟨item, hitem, rfl⟩ := List.mem_map.mp hnode
      exact ih item hitem
  | object members ih =>
      rw [node_object]
      refine .object ?_ fun member hmember => ?_
      · rw [List.map_map]
        have hinj : Function.Injective (Except.ok : String → Key) := fun _ _ heq => Except.ok.inj heq
        have hkeys := members.keys_nodup.map hinj
        rwa [List.map_map] at hkeys
      · obtain ⟨entry, hentry, rfl⟩ := List.mem_map.mp hmember
        exact ih entry hentry

end Json

end Workflow
