import Workflow.Definition.Encode
import Workflow.Proofs.Decode.Depth
import Workflow.Proofs.Decode.Record
import Workflow.Proofs.Json.Document

/-!
# Reading what was written

A decoder reads a written value back from every origin that has room for its levels, be it a text, a
value or the content of a tagged record. There is one law for each way to put decoders together, so
the law of a record is made of the laws of its fields.
-/

namespace Workflow

open Json (Key Node)

/-- Whether there is room for a value of so many levels. Only a text is limited. -/
def Origin.Admits (levels : Nat) : Origin → Prop
  | .text room => levels ≤ room
  | .value | .content => True

theorem Origin.content_admits (levels : Nat) : Origin.content.Admits levels :=
  trivial

section Origin

variable {origin : Origin} {levels : Nat}

theorem Origin.Admits.enter (hadmits : origin.Admits (levels + 1)) :
    ∃ inner, origin.enter = .ok inner ∧ inner.Admits levels := by
  cases origin with
  | text room =>
      cases room with
      | zero => exact absurd hadmits (Nat.not_succ_le_zero levels)
      | succ room => exact ⟨.text room, rfl, Nat.le_of_succ_le_succ hadmits⟩
  | value => exact ⟨.value, rfl, trivial⟩
  | content => exact ⟨.content, rfl, trivial⟩

end Origin

namespace Json

/-- A value of integers only that takes no more than so many levels of a text. -/
def Fits (levels : Nat) (json : Json) : Prop :=
  json.tree.isIntegral = true ∧ json.tree.depth ≤ levels

section Fits

variable {levels : Nat} {json : Json}

theorem fits_text (value : String) : (text value).Fits levels :=
  ⟨rfl, Nat.zero_le levels⟩

theorem fits_bool (value : Bool) : (bool value).Fits levels :=
  ⟨rfl, Nat.zero_le levels⟩

theorem fits_ofUInt64 (value : UInt64) : (ofUInt64 value).Fits levels :=
  ⟨rfl, Nat.zero_le levels⟩

theorem fits_array {items : List Json} (h : ∀ item ∈ items, item.Fits levels) :
    (array items).Fits (levels + 1) := by
  have hitems : Tree.areIntegral (items.map (·.tree)) = true ∧
      Tree.itemsDepth (items.map (·.tree)) ≤ levels := by
    induction items with
    | nil => exact ⟨rfl, Nat.zero_le levels⟩
    | cons item rest ih =>
        obtain ⟨hintegral, hdepth⟩ := h item List.mem_cons_self
        obtain ⟨hrest, hless⟩ := ih fun other hmem => h other (List.mem_cons_of_mem _ hmem)
        exact ⟨Bool.and_eq_true_iff.mpr ⟨hintegral, hrest⟩, Nat.max_le.mpr ⟨hdepth, hless⟩⟩
  exact ⟨hitems.1, Nat.succ_le_succ hitems.2⟩

theorem fits_object {members : Dict Json} (h : ∀ entry ∈ members.entries, entry.2.Fits levels) :
    (object members).Fits (levels + 1) := by
  have hentries : ∀ entries : List (String × Json), (∀ entry ∈ entries, entry.2.Fits levels) →
      Tree.membersIntegral (entries.map fun entry => (entry.1, entry.2.tree)) = true ∧
        Tree.membersDepth (entries.map fun entry => (entry.1, entry.2.tree)) ≤ levels := by
    intro entries hfits
    induction entries with
    | nil => exact ⟨rfl, Nat.zero_le levels⟩
    | cons entry rest ih =>
        obtain ⟨hintegral, hdepth⟩ := hfits entry List.mem_cons_self
        obtain ⟨hrest, hless⟩ := ih fun other hmem => hfits other (List.mem_cons_of_mem _ hmem)
        exact ⟨Bool.and_eq_true_iff.mpr ⟨hintegral, hrest⟩, Nat.max_le.mpr ⟨hdepth, hless⟩⟩
  obtain ⟨hintegral, hdepth⟩ := hentries members.entries h
  exact ⟨hintegral, Nat.succ_le_succ hdepth⟩

theorem fits_record {members : List (String × Json)} (h : ∀ member ∈ members, member.2.Fits levels) :
    (record members).Fits (levels + 1) :=
  fits_object fun entry hentry => h entry (Dict.mem_of_mem_ofList hentry)

/-- A value is read as itself where there is room for it. -/
theorem Fits.toJson (h : json.Fits levels) {origin : Origin} (hadmits : origin.Admits levels) :
    json.node.toJson origin = .ok json := by
  cases origin with
  | text room => rw [toJson_text, readWithin_of_le (Nat.le_trans h.2 hadmits)]
  | value => exact toJson_node rfl json
  | content => exact toJson_node rfl json

end Fits

/-- How a member of an object stands in its node. -/
def memberNode (member : String × Json) : Key × Node :=
  (.ok member.1, member.2.node)

/-- The members of a record stand in their order, whatever the order they are listed in. -/
theorem node_record {members ordered : List (String × Json)} (hperm : members.Perm ordered)
    (hordered : (ordered.map (·.1)).Pairwise (· < ·)) :
    (record members).node = .object (ordered.map memberNode) .closed := by
  rw [record, node_object, Dict.entries_ofList_of_perm hperm (List.pairwise_map.mp hordered)]
  rfl

end Json

namespace Decoder

variable {α : Type} {levels : Nat}

/-- The decoder reads the value from what was written, wherever there is room for it. -/
def Reads (decode : Decoder α) (levels : Nat) (written : Json) (value : α) : Prop :=
  ∀ origin : Origin, origin.Admits levels → decode origin written.node = .ok value

theorem reads_text (value : String) : text.Reads levels (.text value) value :=
  fun _ _ => rfl

theorem reads_bool (value : Bool) : bool.Reads levels (.bool value) value :=
  fun _ _ => rfl

theorem reads_word64 (value : UInt64) : word64.Reads levels (.ofUInt64 value) value := by
  intro origin _
  unfold word64 Json.ofUInt64
  rw [natural_ofNat origin .word64 _ value.toNat_lt_size]
  exact congrArg Except.ok UInt64.ofNat_toNat

/-- Something that is not null is read as something. -/
theorem Reads.optional {decode : Decoder α} {written : Json} {value : α}
    (h : decode.Reads levels written value) (hnull : written.node ≠ .null) :
    decode.optional.Reads levels written (some value) := by
  intro origin hadmits
  unfold Decoder.optional
  split
  · rename_i heq
    exact absurd heq hnull
  · rw [h origin hadmits]
    rfl

theorem mapM_node {decode : Decoder α} {encode : α → Json} {origin : Origin} {values : List α}
    (h : ∀ value ∈ values, decode origin (encode value).node = .ok value) :
    ((values.map encode).map (·.node)).mapM (decode origin) = .ok values := by
  induction values with
  | nil => rfl
  | cons value rest ih =>
      rw [List.map_cons, List.map_cons, List.mapM_cons, h value List.mem_cons_self,
        ih fun other hmem => h other (List.mem_cons_of_mem _ hmem)]
      rfl

theorem Reads.list {decode : Decoder α} {encode : α → Json} {values : List α}
    (h : ∀ value ∈ values, decode.Reads levels (encode value) value) :
    decode.list.Reads (levels + 1) (.array (values.map encode)) values := by
  intro origin hadmits
  obtain ⟨inner, henter, hinner⟩ := hadmits.enter
  rw [Json.node_array, list_array henter rfl]
  exact mapM_node fun value hmem => h value hmem inner hinner

theorem entries_node {decode : Decoder α} {encode : α → Json} {origin : Origin}
    {members : List (String × α)}
    (h : ∀ entry ∈ members, decode origin (encode entry.2).node = .ok entry.2) (dict : Dict α) :
    entries decode origin (members.map fun entry => (.ok entry.1, (encode entry.2).node)) dict =
      .ok (members.foldl (fun dict entry => dict.insert entry.1 entry.2) dict) := by
  induction members generalizing dict with
  | nil => rfl
  | cons entry rest ih =>
      rw [List.map_cons, entries, h entry List.mem_cons_self]
      exact ih (fun other hmem => h other (List.mem_cons_of_mem _ hmem)) _

theorem Reads.dict {decode : Decoder α} {encode : α → Json} {values : Dict α}
    (h : ∀ entry ∈ values.entries, decode.Reads levels (encode entry.2) entry.2) :
    decode.dict.Reads (levels + 1) (.object (values.map encode)) values := by
  intro origin hadmits
  obtain ⟨inner, henter, hinner⟩ := hadmits.enter
  have hnodes : (Json.object (values.map encode)).node =
      .object (values.entries.map fun entry => (.ok entry.1, (encode entry.2).node)) .closed := by
    rw [Json.node_object, Dict.map, List.map_map]
    rfl
  rw [hnodes, dict_object henter rfl, entries_node fun entry hmem => h entry hmem inner hinner]
  exact congrArg Except.ok values.ofList_entries

end Decoder

namespace Record

variable {δ α β : Type} {fields : List (Field δ)} {levels : Nat} {name : String}
  {draft middle filled : δ} {first second : List (String × Json)}

/-- The members take the draft to the filled one, wherever there is room for them. -/
def Fills (fields : List (Field δ)) (levels : Nat) (members : List (String × Json))
    (draft filled : δ) : Prop :=
  ∀ origin : Origin, origin.Admits levels → ∀ rest,
    fillMembers fields origin (members.map Json.memberNode ++ rest) draft =
      fillMembers fields origin rest filled

theorem Fills.append (hfirst : Fills fields levels first draft middle)
    (hsecond : Fills fields levels second middle filled) :
    Fills fields levels (first ++ second) draft filled := by
  intro origin hadmits rest
  rw [List.map_append, List.append_assoc, hfirst origin hadmits, hsecond origin hadmits]

theorem fills_member {field : Field δ} {written : Json}
    (hfind : (fields.find? fun field => field.name == name) = some field)
    (hopen : field.filled draft = false)
    (hfill : ∀ origin : Origin, origin.Admits levels →
      field.fill draft origin written.node = .ok filled) :
    Fills fields levels [(name, written)] draft filled :=
  fun origin hadmits _ => fillMembers_cons hfind hopen (hfill origin hadmits)

theorem fills_required {get : δ → Option β} {set : δ → Option β → δ} {decode : Decoder β}
    {written : Json} {value : β}
    (hfind : (fields.find? fun field => field.name == name) = some (.required name get set decode))
    (hopen : (get draft).isSome = false) (hreads : decode.Reads levels written value)
    (hset : set draft (some value) = filled) :
    Fills fields levels [(name, written)] draft filled := by
  refine fills_member hfind hopen fun origin hadmits => ?_
  rw [← hset]
  exact congrArg (Except.map _) (hreads origin hadmits)

theorem fills_defaulted {get : δ → Option β} {set : δ → Option β → δ} {decode : Decoder β}
    {written : Json} {value : β}
    (hfind : (fields.find? fun field => field.name == name) = some (.defaulted name get set decode))
    (hopen : (get draft).isSome = false) (hreads : decode.Reads levels written value)
    (hset : set draft (some value) = filled) :
    Fills fields levels [(name, written)] draft filled := by
  refine fills_member hfind hopen fun origin hadmits => ?_
  rw [← hset]
  exact congrArg (Except.map _) (hreads origin hadmits)

/-- A field that is left out stays as it was, so a member that may be missing is read back. -/
theorem fills_optional {get : δ → Option (Option β)} {set : δ → Option (Option β) → δ}
    {decode : Decoder β} {encode : β → Json} {value : Option β}
    (hfind : (fields.find? fun field => field.name == name) =
      some (.defaulted name get set decode.optional))
    (hopen : (get draft).isSome = false) (hunset : set draft none = draft)
    (hreads : ∀ held ∈ value, decode.Reads levels (encode held) held)
    (hnull : ∀ held, (encode held).node ≠ .null) (hset : set draft (value.map some) = filled) :
    Fills fields levels (optionalMember name value encode) draft filled := by
  cases value with
  | none =>
      intro origin _ rest
      rw [← hset, Option.map_none, hunset]
      rfl
  | some held =>
      exact fills_defaulted hfind hopen ((hreads held rfl).optional (hnull held)) hset

theorem decode_fills {record : Record δ α} {origin : Origin} {members : List (String × Json)}
    {value : α} (hadmits : origin.Admits (levels + 1))
    (hfills : Fills record.fields levels members record.blank filled)
    (hfinish : record.finish filled = .ok value) :
    record.decode origin (.object (members.map Json.memberNode) .closed) = .ok value := by
  obtain ⟨inner, henter, hinner⟩ := hadmits.enter
  have hall := hfills inner hinner []
  rw [List.append_nil] at hall
  rw [decode_closed henter hall, hfinish]

/-- A record is read back from its members, whatever the order they are listed in. -/
theorem reads_record {record : Record δ α} {members ordered : List (String × Json)} {value : α}
    (hperm : members.Perm ordered) (hordered : (ordered.map (·.1)).Pairwise (· < ·))
    (hfills : Fills record.fields levels ordered record.blank filled)
    (hfinish : record.finish filled = .ok value) :
    record.decode.Reads (levels + 1) (.record members) value := by
  intro origin hadmits
  rw [Json.node_record hperm hordered, decode_fills hadmits hfills hfinish]

end Record

end Workflow
