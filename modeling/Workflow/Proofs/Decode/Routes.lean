import Mathlib.Data.List.Pairwise
import Workflow.Proofs.Decode.Layout
import Workflow.Proofs.Decode.Reads

/-!
# The routes of a decoder

A text is decoded from its nodes as they come, a value from nodes in the order of their keys. A
decoder is faithful if the route makes no difference: where a node without repeated keys can be read
as a value, decoding the node and decoding the value concur. There is one law for each way to put
decoders together.
-/

namespace Workflow

open Json (Node Key ArrayEnd ObjectEnd Gives memberNode readKey)

section Object

variable {σ : Type} {inner : Origin} {members : List (Key × Node)} {entries : List (String × Json)}
  {step other : σ → Key × Node → Except DecodeError σ}

/-- The members as they come against the entries in the order of their keys. -/
theorem concur_members (hgives : List.Forall₂ (Gives inner) members entries)
    (hnodup : (members.map (·.1)).Nodup)
    (hstep : ∀ member ∈ members, ∀ entry, Gives inner member entry →
      ∀ state, Concur (· = ·) (step state member) (other state (memberNode entry)))
    (hswap : ∀ x y : String × Json, x.1 ≠ y.1 →
      Concur.Interchange other (memberNode x) (memberNode y)) (state : σ) :
    Concur (· = ·) (members.foldlM step state)
      (((Dict.ofList entries).entries.map memberNode).foldlM other state) := by
  -- First the entries in the order of the members, then in the order of their keys.
  have hentries := Json.nodup_of_gives hgives hnodup
  have hread : Concur (· = ·) (members.foldlM step state)
      ((entries.map memberNode).foldlM other state) := by
    refine .foldlM ?_ state
    rw [List.forall₂_map_right_iff]
    refine (List.forall₂_and_left _ _ |>.mpr ⟨hstep, hgives⟩).imp ?_
    rintro member entry ⟨hmember, hentry⟩
    exact hmember entry hentry
  have horder : ((entries.map memberNode)).Pairwise (Concur.Interchange other) := by
    rw [List.pairwise_map]
    exact (List.pairwise_map.mp (List.nodup_iff_pairwise_ne.mp hentries)).imp fun hne => hswap _ _ hne
  exact hread.trans
    (Concur.foldlM_of_perm ((Dict.perm_entries_ofList hentries).symm.map memberNode) horder state)

end Object

namespace Decoder

variable {α β : Type} {decode : Decoder α}

/-- Decoding a node and decoding the value that it can be read as concur. -/
def Faithful (decode : Decoder α) : Prop :=
  ∀ ⦃origin : Origin⦄ ⦃node : Node⦄ ⦃value : Json⦄, node.toJson origin = .ok value →
    node.DistinctKeys → Concur (· = ·) (decode origin node) (decode .value value.node)

/-- Two nodes for one value are decoded alike. -/
theorem Faithful.alike (h : decode.Faithful) {origin inner : Origin} {node other : Node}
    {value : Json} (hnode : node.toJson origin = .ok value) (hkeys : node.DistinctKeys)
    (hother : other.toJson inner = .ok value) (hkeys' : other.DistinctKeys) :
    Concur (· = ·) (decode origin node) (decode inner other) :=
  (h hnode hkeys).trans (h hother hkeys').symm

/-- A text is decoded like the value that it holds. -/
theorem Faithful.ofText (h : decode.Faithful) {text : String} {value : Json}
    (hholds : Json.Holds text value) :
    Concur (· = ·) (decode.ofText text) (decode.ofJson value) := by
  rw [ofText_of_ended (ended_of_ofText hholds.read)]
  exact h hholds.toJson hholds.keys

theorem Faithful.map (h : decode.Faithful) {f : α → β} :
    Faithful fun origin node => (decode origin node).map f :=
  fun _ _ _ hvalue hkeys => (h hvalue hkeys).map fun _ _ => congrArg f

theorem Faithful.bind (h : decode.Faithful) {next : α → Except DecodeError β} :
    Faithful fun origin node => decode origin node >>= next :=
  fun _ _ _ hvalue hkeys => (h hvalue hkeys).bind fun _ _ heq => heq ▸ .refl _

/-- A decoder that enters neither arrays nor objects does not see where it is. -/
theorem faithful_of_plain (horigin : ∀ origin node, decode origin node = decode .value node)
    (harray : ∀ items ending, ∃ error, decode .value (.array items ending) = .error error)
    (hobject : ∀ members ending, ∃ error, decode .value (.object members ending) = .error error) :
    decode.Faithful := by
  intro origin node value hvalue _
  rw [horigin origin node]
  cases Node.denotes_of_toJson hvalue with
  | null | bool | number | text => exact .refl _
  | @array _ items values ending =>
      obtain ⟨error, herror⟩ := harray items ending
      obtain ⟨other, hother⟩ := harray (values.map (·.node)) .closed
      rw [Json.node_array, herror, hother]
      exact .error error other
  | @object _ members entries ending =>
      obtain ⟨error, herror⟩ := hobject members ending
      obtain ⟨other, hother⟩ := hobject ((Dict.ofList entries).entries.map memberNode) .closed
      rw [Json.node_object, herror]
      change Concur _ _ (decode .value (.object ((Dict.ofList entries).entries.map memberNode) .closed))
      rw [hother]
      exact .error error other

theorem text_faithful : text.Faithful :=
  faithful_of_plain (fun _ _ => rfl) (fun _ _ => ⟨_, rfl⟩) fun _ _ => ⟨_, rfl⟩

theorem bool_faithful : bool.Faithful :=
  faithful_of_plain (fun _ _ => rfl) (fun _ _ => ⟨_, rfl⟩) fun _ _ => ⟨_, rfl⟩

theorem natural_faithful (size : Nat) (expected : Expected) : (natural size expected).Faithful :=
  faithful_of_plain (fun _ _ => rfl) (fun _ _ => ⟨_, rfl⟩) fun _ _ => ⟨_, rfl⟩

theorem word64_faithful : word64.Faithful :=
  (natural_faithful _ _).map

theorem variant_faithful (known : List (String × α)) (listed : List String) :
    (variant known listed).Faithful :=
  faithful_of_plain (fun _ _ => rfl) (fun _ _ => ⟨_, rfl⟩) fun _ _ => ⟨_, rfl⟩

theorem Faithful.optional (h : decode.Faithful) : decode.optional.Faithful := by
  intro origin node value hvalue hkeys
  have hsome := h.map (f := some) hvalue hkeys
  cases Node.denotes_of_toJson hvalue with
  | null => exact .ok rfl
  | bool | number | text | array | object => exact hsome

theorem Faithful.list (h : decode.Faithful) : decode.list.Faithful := by
  intro origin node value hvalue hkeys
  cases Node.denotes_of_toJson hvalue with
  | null | bool | number | text | object => exact .error _ _
  | @array inner items values ending henter hvalues hending =>
      have hitems : List.Forall₂ (fun item node => Concur (· = ·) (decode inner item) (decode .value node))
          items (values.map (·.node)) := by
        rw [List.forall₂_map_right_iff]
        refine (List.forall₂_and_left _ _ |>.mpr ⟨hkeys.items, hvalues⟩).imp ?_
        rintro item value ⟨hitem, hvalue⟩
        exact h hvalue hitem
      rw [Json.node_array, list_array henter hending, list_array rfl rfl]
      have hmapM := Concur.mapM hitems
      rwa [List.forall₂_eq_eq_eq] at hmapM

/-- Enters the entry of one member. -/
def addEntry (decode : Decoder α) (origin : Origin) (dict : Dict α) (member : Key × Node) :
    Except DecodeError (Dict α) := do
  let key ← readKey member.1
  (decode origin member.2).map (dict.insert key)

theorem entries_eq_foldlM (origin : Origin) (members : List (Key × Node)) (dict : Dict α) :
    entries decode origin members dict = members.foldlM (addEntry decode origin) dict := by
  induction members generalizing dict with
  | nil => rfl
  | cons member rest ih =>
      obtain ⟨key, node⟩ := member
      rw [entries, List.foldlM_cons, addEntry]
      cases readKey key with
      | error error => rfl
      | ok key =>
          change (decode origin node >>= fun value => _) =
            ((decode origin node).map (dict.insert key) >>= fun dict => _)
          cases decode origin node with
          | error error => rfl
          | ok value => exact ih _

theorem Faithful.dict (h : decode.Faithful) : decode.dict.Faithful := by
  intro origin node value hvalue hkeys
  cases Node.denotes_of_toJson hvalue with
  | null | bool | number | text | array => exact .error _ _
  | @object inner members entries ending henter hentries hending =>
      rw [Json.node_object, dict_object henter hending, dict_object rfl rfl, entries_eq_foldlM,
        entries_eq_foldlM]
      refine concur_members hentries hkeys.keys ?_ ?_ Dict.empty
      · rintro ⟨key, node⟩ hmember entry ⟨rfl, hvalue⟩ dict
        exact (h hvalue (hkeys.members _ hmember)).map fun _ _ => congrArg _
      · intro x y hne dict
        exact .map_comm (fun dict => dict.insert x.1) (fun dict => dict.insert y.1) dict
          fun _ _ => dict.insert_comm hne _ _

end Decoder

namespace Field

variable {δ : Type}

/-- Neither field touches the place of the other. -/
structure Apart (first second : Field δ) : Prop where
  left : ∀ {draft filled : δ} {origin : Origin} {node : Node},
    first.fill draft origin node = .ok filled → second.filled filled = second.filled draft
  right : ∀ {draft filled : δ} {origin : Origin} {node : Node},
    second.fill draft origin node = .ok filled → first.filled filled = first.filled draft
  comm : ∀ (draft : δ) (origin : Origin) (node other : Node),
    Concur (· = ·) (first.fill draft origin node >>= fun draft => second.fill draft origin other)
      (second.fill draft origin other >>= fun draft => first.fill draft origin node)

variable {first second : Field δ}

theorem Apart.symm (h : first.Apart second) : second.Apart first :=
  ⟨h.right, h.left, fun draft origin node other => (h.comm draft origin other node).symm⟩

instance : Std.Symm (Apart : Field δ → Field δ → Prop) := ⟨fun _ _ => Apart.symm⟩

theorem Apart.of_puts {α β : Type} {decode : Decoder α} {other : Decoder β} {put : δ → α → δ}
    {put' : δ → β → δ}
    (hfirst : ∀ draft origin node, first.fill draft origin node = (decode origin node).map (put draft))
    (hsecond : ∀ draft origin node,
      second.fill draft origin node = (other origin node).map (put' draft))
    (hleft : ∀ draft value, second.filled (put draft value) = second.filled draft)
    (hright : ∀ draft value, first.filled (put' draft value) = first.filled draft)
    (hcomm : ∀ draft value result, put' (put draft value) result = put (put' draft result) value) :
    first.Apart second where
  left {draft filled origin node} h := by
    rw [hfirst] at h
    obtain ⟨value, -, rfl⟩ := ok_of_map h
    exact hleft draft value
  right {draft filled origin node} h := by
    rw [hsecond] at h
    obtain ⟨value, -, rfl⟩ := ok_of_map h
    exact hright draft value
  comm draft origin node next := by
    simp only [hfirst, hsecond]
    exact .map_comm put put' draft (hcomm draft)

theorem faithful_required {α : Type} {name : String} {get : δ → Option α} {set : δ → Option α → δ}
    {decode : Decoder α} (h : decode.Faithful) (draft : δ) :
    ((required name get set decode).fill draft).Faithful :=
  h.map

theorem faithful_defaulted {α : Type} {name : String} {get : δ → Option α} {set : δ → Option α → δ}
    {decode : Decoder α} (h : decode.Faithful) (draft : δ) :
    ((defaulted name get set decode).fill draft).Faithful :=
  h.map

end Field

namespace Record

variable {δ α : Type} {fields : List (Field δ)}

theorem fillMember_unknown {origin inner : Origin} {draft : δ} {key : String} {node : Node}
    {value : Json} (hfind : (fields.find? fun field => field.name == key) = none)
    (hvalue : node.toJson inner = .ok value) :
    fillMember fields origin draft (.ok key, node) = .ok draft := by
  have hkey : readKey (.ok key) = .ok key := rfl
  rw [fillMember, hkey]
  simp only [bind, Except.bind, hfind, Json.skip_of_toJson hvalue]
  rfl

/-- A field that is filled already is refused, also after another field has been filled. -/
theorem fillMember_bind_error {origin : Origin} {draft : δ} {node other : Node} {key : String}
    {first second : Field δ} (hfind : (fields.find? fun field => field.name == key) = some second)
    (hapart : first.Apart second) (hfilled : second.filled draft = true) :
    ∃ error, (first.fill draft origin node >>= fun draft =>
      fillMember fields origin draft (.ok key, other)) = .error error := by
  cases hfill : first.fill draft origin node with
  | error error => exact ⟨error, rfl⟩
  | ok filled => exact ⟨_, fillMember_error hfind ((hapart.left hfill).trans hfilled)⟩

theorem fillMember_bind_fill {origin : Origin} {draft : δ} {node other : Node} {key : String}
    {first second : Field δ} (hfind : (fields.find? fun field => field.name == key) = some second)
    (hapart : first.Apart second) (hopen : second.filled draft = false) :
    (first.fill draft origin node >>= fun draft => fillMember fields origin draft (.ok key, other)) =
      first.fill draft origin node >>= fun draft => second.fill draft origin other := by
  cases hfill : first.fill draft origin node with
  | error error => rfl
  | ok filled => exact fillMember_fill hfind ((hapart.left hfill).trans hopen)

/-- Members of different fields can be entered in any order. -/
theorem interchange_known {x y : String × Json} {first second : Field δ}
    (hx : (fields.find? fun field => field.name == x.1) = some first)
    (hy : (fields.find? fun field => field.name == y.1) = some second) (hapart : first.Apart second) :
    Concur.Interchange (fillMember fields .value) (memberNode x) (memberNode y) := by
  intro draft
  change Concur _ (fillMember fields .value draft (.ok x.1, x.2.node) >>= fun draft =>
      fillMember fields .value draft (.ok y.1, y.2.node))
    (fillMember fields .value draft (.ok y.1, y.2.node) >>= fun draft =>
      fillMember fields .value draft (.ok x.1, x.2.node))
  cases hfirst : first.filled draft with
  | true =>
      rw [fillMember_error hx hfirst]
      cases hsecond : second.filled draft with
      | true =>
          rw [fillMember_error hy hsecond]
          exact .error _ _
      | false =>
          obtain ⟨error, herror⟩ := fillMember_bind_error hx hapart.symm hfirst
          rw [fillMember_fill hy hsecond, herror]
          exact .error _ _
  | false =>
      rw [fillMember_fill hx hfirst]
      cases hsecond : second.filled draft with
      | true =>
          obtain ⟨error, herror⟩ := fillMember_bind_error hy hapart hsecond
          rw [fillMember_error hy hsecond, herror]
          exact .error _ _
      | false =>
          rw [fillMember_fill hy hsecond, fillMember_bind_fill hy hapart hsecond,
            fillMember_bind_fill hx hapart.symm hfirst]
          exact hapart.comm draft .value _ _

theorem fillMember_interchange (hapart : fields.Pairwise Field.Apart) (x y : String × Json)
    (hne : x.1 ≠ y.1) :
    Concur.Interchange (fillMember fields .value) (memberNode x) (memberNode y) := by
  -- A value is passed over without a fault, so only members of two fields have to change places.
  have hskip : ∀ z : String × Json, (fields.find? fun field => field.name == z.1) = none →
      ∀ draft, fillMember fields .value draft (memberNode z) = .ok draft :=
    fun z hfind draft => fillMember_unknown hfind (Decoder.json_ofJson z.2)
  cases hx : fields.find? fun field => field.name == x.1 with
  | none =>
      intro draft
      simp only [hskip x hx]
      change Concur _ _ (fillMember fields .value draft (memberNode y) >>= pure)
      rw [bind_pure]
      exact .refl _
  | some first =>
      cases hy : fields.find? fun field => field.name == y.1 with
      | none =>
          intro draft
          simp only [hskip y hy]
          change Concur _ (fillMember fields .value draft (memberNode x) >>= pure) _
          rw [bind_pure]
          exact .refl _
      | some second =>
          have hfirst := List.find?_some hx
          have hsecond := List.find?_some hy
          simp only [beq_iff_eq] at hfirst hsecond
          have hfields : first ≠ second := by
            rintro rfl
            exact hne (hfirst.symm.trans hsecond)
          exact interchange_known hx hy (hapart.forall (List.mem_of_find?_eq_some hx)
            (List.mem_of_find?_eq_some hy) hfields)

section Faithful

variable {inner : Origin} {items : List Node} {values : List Json}

theorem fillMember_concur (hfields : ∀ field ∈ fields, ∀ draft, (field.fill draft).Faithful)
    {member : Key × Node} {entry : String × Json} (hgives : Gives inner member entry)
    (hkeys : member.2.DistinctKeys) (draft : δ) :
    Concur (· = ·) (fillMember fields inner draft member)
      (fillMember fields .value draft (memberNode entry)) := by
  obtain ⟨key, node⟩ := member
  obtain ⟨rfl, hvalue⟩ := hgives
  change Concur _ _ (fillMember fields .value draft (.ok entry.1, entry.2.node))
  cases hfind : fields.find? fun field => field.name == entry.1 with
  | none =>
      rw [fillMember_unknown hfind hvalue, fillMember_unknown hfind (Decoder.json_ofJson entry.2)]
      exact .ok rfl
  | some field =>
      rw [fillMember_known hfind, fillMember_known hfind]
      cases field.filled draft with
      | true => exact .error _ _
      | false => exact hfields field (List.mem_of_find?_eq_some hfind) draft hvalue hkeys

theorem fillItems_concur {record : Record δ α} {ending : ArrayEnd} (hending : ending.fault? = none)
    (hfields : ∀ field ∈ fields, ∀ draft, (field.fill draft).Faithful)
    (hitems : List.Forall₂ (fun item value => item.DistinctKeys ∧ item.toJson inner = .ok value)
      items values) (position : Nat) (draft : δ) :
    Concur (fun left right => left.1 = right.1 ∧ left.2.isEmpty = right.2.isEmpty)
      (record.fillItems inner ending position fields items draft)
      (record.fillItems .value .closed position fields (values.map (·.node)) draft) := by
  induction fields generalizing items values position draft with
  | nil =>
      refine .ok ⟨rfl, ?_⟩
      cases hitems <;> rfl
  | cons field fields ih =>
      have hrest := fun other hmem => hfields other (List.mem_cons_of_mem field hmem)
      cases hitems with
      | nil =>
          rw [List.map_nil, fillItems, fillItems, hending]
          cases field.optional with
          | true => exact ih hrest .nil (position + 1) draft
          | false => exact .error _ _
      | cons hitem hitems =>
          rw [List.map_cons, fillItems, fillItems]
          refine (hfields field List.mem_cons_self draft hitem.2 hitem.1).bind ?_
          rintro filled _ rfl
          exact ih hrest hitems (position + 1) filled

theorem checkEnd_concur {ending : ArrayEnd} (hending : ending.fault? = none) {rest others : List Node}
    (hrest : rest.isEmpty = others.isEmpty) (count : Nat) :
    Concur (· = ·) (checkEnd count inner ending rest) (checkEnd count .value .closed others) := by
  have hclosing : ending.closingFault? = none := by
    rcases Json.ArrayEnd.fault?_eq_none_iff.mp hending with rfl | rfl <;> rfl
  cases hempty : others.isEmpty with
  | true =>
      rw [hempty] at hrest
      have hend : checkEnd count inner ending rest = .ok () := by
        cases inner <;> simp only [checkEnd, hrest, if_true, hclosing, checked]
      rw [hend, checkEnd, hempty]
      exact .ok rfl
  | false =>
      rw [hempty] at hrest
      cases inner <;> simp only [checkEnd, hrest, hempty] <;> exact .error _ _

/-- A record is read faithfully if its fields are and none touches the place of another. -/
theorem decode_faithful {record : Record δ α} (hapart : record.fields.Pairwise Field.Apart)
    (hfields : ∀ field ∈ record.fields, ∀ draft, (field.fill draft).Faithful) :
    record.decode.Faithful := by
  intro origin node value hvalue hkeys
  cases Node.denotes_of_toJson hvalue with
  | null | bool | number | text => exact .error _ _
  | @array inner items values ending henter hvalues hending =>
      have hitems := List.forall₂_and_left _ _ |>.mpr ⟨hkeys.items, hvalues⟩
      rw [Json.node_array]
      change Concur _ (origin.enter >>= fun inner =>
          record.fillItems inner ending 0 record.fields items record.blank >>= fun pair =>
            checkEnd record.fields.length inner ending pair.2 >>= fun _ => record.finish pair.1)
        (record.fillItems .value .closed 0 record.fields (values.map (·.node)) record.blank >>=
          fun pair => checkEnd record.fields.length .value .closed pair.2 >>= fun _ =>
            record.finish pair.1)
      rw [henter]
      refine (fillItems_concur hending hfields hitems 0 record.blank).bind ?_
      rintro ⟨draft, rest⟩ ⟨_, others⟩ ⟨rfl, hrest⟩
      exact (checkEnd_concur hending hrest _).bind fun _ _ _ => .refl _
  | @object inner members entries ending henter hentries hending =>
      rw [Json.node_object, decode_object henter hending, decode_object rfl rfl, fillMembers_eq_foldlM,
        fillMembers_eq_foldlM]
      refine (concur_members hentries hkeys.keys ?_ (fillMember_interchange hapart) record.blank).bind ?_
      · intro member hmember entry hgives draft
        exact fillMember_concur hfields hgives (hkeys.members member hmember) draft
      · rintro draft _ rfl
        exact .refl _

end Faithful

end Record

end Workflow
