import Workflow.Definition.Encode
import Workflow.Definition.Decode
import Workflow.Proofs.Decode.Routes

/-!
# The two routes to a machine

A machine is read from a text as it comes or from the value that the text holds, and both give the
same verdict. Only a state takes more than the laws of its parts: its type may stand anywhere among
its members, so what is left for its content stands in another order on each route.
-/

namespace Workflow

open Json (Node Key ArrayEnd ObjectEnd Gives memberNode readKey)
open Decoder (Faithful)

section Parts

theorem Catcher.pairwise_apart : Catcher.recordForm.fields.Pairwise Field.Apart := by
  simp only [recordForm, List.pairwise_cons, List.forall_mem_cons, List.not_mem_nil, false_imp_iff,
    implies_true, and_true, List.Pairwise.nil]
  exact .of_puts (fun _ _ _ => rfl) (fun _ _ _ => rfl) (fun _ _ => rfl) (fun _ _ => rfl) fun _ _ _ => rfl

theorem Catcher.decode_faithful : Catcher.decode.Faithful := by
  have hfields : ∀ field ∈ recordForm.fields, ∀ draft, (field.fill draft).Faithful := by
    simp only [recordForm, List.forall_mem_cons]
    exact ⟨Field.faithful_required Decoder.text_faithful.list,
      Field.faithful_required Decoder.text_faithful, fun _ h => nomatch h⟩
  exact Record.decode_faithful pairwise_apart hfields

theorem TaskState.pairwise_apart : TaskState.recordForm.fields.Pairwise Field.Apart := by
  simp only [recordForm, List.pairwise_cons, List.forall_mem_cons, List.not_mem_nil, false_imp_iff,
    implies_true, and_true, List.Pairwise.nil]
  and_intros <;> exact .of_puts (fun _ _ _ => rfl) (fun _ _ _ => rfl) (fun _ _ => rfl) (fun _ _ => rfl)
    fun _ _ _ => rfl

theorem TaskState.decode_faithful : TaskState.decode.Faithful := by
  have hfields : ∀ field ∈ recordForm.fields, ∀ draft, (field.fill draft).Faithful := by
    simp only [recordForm, List.forall_mem_cons]
    exact ⟨Field.faithful_required Decoder.text_faithful,
      Field.faithful_defaulted Decoder.text_faithful.optional,
      Field.faithful_defaulted Decoder.bool_faithful.optional,
      Field.faithful_defaulted Catcher.decode_faithful.list.optional,
      Field.faithful_defaulted Decoder.text_faithful.optional, fun _ h => nomatch h⟩
  exact Faithful.bind (Record.decode_faithful pairwise_apart hfields)

theorem FailState.pairwise_apart : FailState.recordForm.fields.Pairwise Field.Apart := by
  simp only [recordForm, List.pairwise_cons, List.forall_mem_cons, List.not_mem_nil, false_imp_iff,
    implies_true, and_true, List.Pairwise.nil]
  and_intros <;> exact .of_puts (fun _ _ _ => rfl) (fun _ _ _ => rfl) (fun _ _ => rfl) (fun _ _ => rfl)
    fun _ _ _ => rfl

theorem FailState.decode_faithful : FailState.decode.Faithful := by
  have hfields : ∀ field ∈ recordForm.fields, ∀ draft, (field.fill draft).Faithful := by
    simp only [recordForm, List.forall_mem_cons]
    exact ⟨Field.faithful_required Decoder.text_faithful,
      Field.faithful_required Decoder.text_faithful,
      Field.faithful_defaulted Decoder.text_faithful.optional, fun _ h => nomatch h⟩
  exact Record.decode_faithful pairwise_apart hfields

end Parts

namespace State

theorem succeedForm_faithful : succeedForm.decode.Faithful := by
  refine Record.decode_faithful (List.pairwise_singleton _ _) ?_
  simp only [succeedForm, List.forall_mem_cons]
  exact ⟨Field.faithful_defaulted Decoder.text_faithful.optional, fun _ h => nomatch h⟩

/-- Two nodes for one value are alike as the content of a state. -/
theorem decodeContent_alike {node other : Node} {value : Json}
    (hnode : node.toJson .content = .ok value) (hkeys : node.DistinctKeys)
    (hother : other.toJson .content = .ok value) (hkeys' : other.DistinctKeys) (kind : Kind) :
    Concur (· = ·) (decodeContent node kind) (decodeContent other kind) := by
  cases kind with
  | task =>
      exact (TaskState.decode_faithful.alike hnode hkeys hother hkeys').map fun _ _ => congrArg _
  | succeed => exact (succeedForm_faithful.alike hnode hkeys hother hkeys').map fun _ _ => congrArg _
  | fail =>
      exact (FailState.decode_faithful.alike hnode hkeys hother hkeys').map fun _ _ => congrArg _

section Split

variable {origin inner : Origin} {members : List (Key × Node)} {entries : List (String × Json)}
  {items : List Node} {values : List Json}

/-- Members of other names are passed on as they come. -/
theorem splitMembers_append (hgives : List.Forall₂ (Gives origin) members entries)
    (hother : ∀ entry ∈ entries, entry.1 ≠ typeKey) (rest : List (Key × Node)) (kind : Option Kind) :
    splitMembers origin (members ++ rest) kind =
      (splitMembers origin rest kind).map fun parts => (parts.1, members ++ parts.2) := by
  induction hgives with
  | nil =>
      rw [List.nil_append]
      cases splitMembers origin rest kind <;> rfl
  | @cons member entry _ _ hgives _ ih =>
      obtain ⟨key, node⟩ := member
      obtain ⟨rfl, hvalue⟩ := hgives
      change node.toJson origin = .ok entry.2 at hvalue
      have hkey : readKey (.ok entry.1) = .ok entry.1 := rfl
      have hrest := ih fun other hmem => hother other (List.mem_cons_of_mem _ hmem)
      rw [List.cons_append, splitMembers, hkey]
      simp only [bind, Except.bind, if_neg (hother entry List.mem_cons_self), hvalue, hrest]
      cases splitMembers origin rest kind <;> rfl

theorem splitMembers_untyped (hgives : List.Forall₂ (Gives origin) members entries)
    (hother : ∀ entry ∈ entries, entry.1 ≠ typeKey) (kind : Option Kind) :
    splitMembers origin members kind = .ok (kind, members) := by
  have happend := splitMembers_append hgives hother [] kind
  rw [List.append_nil] at happend
  rw [happend, splitMembers]
  exact congrArg (fun others => Except.ok (kind, others)) members.append_nil

/-- The type among the members and the members that are left. -/
structure Parted (origin : Origin) (members : List (Key × Node)) (entries : List (String × Json))
    (written : Json) (node : Node) (others : List (Key × Node)) : Prop where
  type : node.toJson origin = .ok written
  mem : (.ok typeKey, node) ∈ members
  sublist : others.Sublist members
  gives : List.Forall₂ (Gives origin) others (entries.filter fun entry => entry.1 != typeKey)
  split : splitMembers origin members none =
    (Kind.decode origin node).map fun kind => (some kind, others)

theorem parted_of_type {written : Json} {node : Node} (hvalue : node.toJson origin = .ok written)
    (hgives : List.Forall₂ (Gives origin) members entries)
    (hother : ∀ entry ∈ entries, entry.1 ≠ typeKey) :
    Parted origin ((.ok typeKey, node) :: members) ((typeKey, written) :: entries) written node members where
  type := hvalue
  mem := List.mem_cons_self
  sublist := List.sublist_cons_self _ _
  gives := by
    rw [List.filter_cons_of_neg (by simp), List.filter_eq_self.mpr (by simpa using hother)]
    exact hgives
  split := by
    have hkey : readKey (.ok typeKey) = .ok typeKey := rfl
    rw [splitMembers, hkey]
    simp only [bind, Except.bind, if_true, Option.isSome_none, Bool.false_eq_true, if_false]
    cases Kind.decode origin node with
    | error error => rfl
    | ok kind => exact splitMembers_untyped hgives hother (some kind)

theorem Parted.cons {written : Json} {node : Node} {others : List (Key × Node)}
    (h : Parted origin members entries written node others) {key : String} {passed : Node} {value : Json}
    (hvalue : passed.toJson origin = .ok value) (hother : key ≠ typeKey) :
    Parted origin ((.ok key, passed) :: members) ((key, value) :: entries) written node
      ((.ok key, passed) :: others) where
  type := h.type
  mem := List.mem_cons_of_mem _ h.mem
  sublist := h.sublist.cons_cons _
  gives := by
    rw [List.filter_cons_of_pos (by simpa using hother)]
    exact .cons ⟨rfl, hvalue⟩ h.gives
  split := by
    have hkey : readKey (.ok key) = .ok key := rfl
    rw [splitMembers, hkey]
    simp only [bind, Except.bind, if_neg hother, hvalue, h.split]
    cases Kind.decode origin node <;> rfl

theorem exists_parted (hgives : List.Forall₂ (Gives origin) members entries)
    (hnodup : (entries.map (·.1)).Nodup) {written : Json} (htype : (typeKey, written) ∈ entries) :
    ∃ node others, Parted origin members entries written node others := by
  induction hgives with
  | nil => cases htype
  | @cons member entry members entries hgives hrest ih =>
      obtain ⟨key, node⟩ := member
      obtain ⟨name, value⟩ := entry
      obtain ⟨rfl, hvalue⟩ := hgives
      rw [List.map_cons, List.nodup_cons] at hnodup
      rcases List.mem_cons.mp htype with heq | hmem
      · cases heq
        have hother : ∀ other ∈ entries, other.1 ≠ typeKey := fun other hmem heq =>
          hnodup.1 (heq ▸ List.mem_map.mpr ⟨other, hmem, rfl⟩)
        exact ⟨node, members, parted_of_type hvalue hrest hother⟩
      · have hother : name ≠ typeKey := by
          rintro rfl
          exact hnodup.1 (List.mem_map.mpr ⟨_, hmem, rfl⟩)
        obtain ⟨type, others, hparted⟩ := ih hnodup.2 hmem
        exact ⟨type, _, hparted.cons hvalue hother⟩

/-- The state that members make, in whatever order they come. -/
def ofMembers (members : Dict Json) : Except DecodeError State := do
  let kind ← Kind.decode.entry members typeKey
  decodeContent (Json.object (members.erase typeKey)).node kind

theorem decode_object {ending : ObjectEnd} (henter : origin.enter = .ok inner)
    (hending : ending.fault? = none) :
    decode origin (.object members ending) =
      splitMembers inner members none >>= fun parts => need typeKey parts.1 >>= fun kind =>
        decodeContent (.object parts.2 .closed) kind := by
  rw [decode, split, henter, hending]
  change ((splitMembers inner members none >>= _) >>= _) = _
  cases splitMembers inner members none with
  | error error => rfl
  | ok parts =>
      obtain ⟨kind, others⟩ := parts
      cases kind <;> rfl

theorem Parted.decode {ending : ObjectEnd} {written : Json} {node : Node} {others : List (Key × Node)}
    (h : Parted inner members entries written node others) (henter : origin.enter = .ok inner)
    (hending : ending.fault? = none) :
    State.decode origin (.object members ending) =
      Kind.decode inner node >>= fun kind => decodeContent (.object others .closed) kind := by
  rw [decode_object henter hending, h.split]
  cases Kind.decode inner node <;> rfl

theorem decode_concur_ofMembers {ending : ObjectEnd} (henter : origin.enter = .ok inner)
    (hgives : List.Forall₂ (Gives inner) members entries) (hending : ending.fault? = none)
    (hkeys : (Node.object members ending).DistinctKeys) :
    Concur (· = ·) (decode origin (.object members ending)) (ofMembers (.ofList entries)) := by
  have hnodup := Json.nodup_of_gives hgives hkeys.keys
  cases hget : (Dict.ofList entries).get? typeKey with
  | none =>
      have hother : ∀ entry ∈ entries, entry.1 ≠ typeKey := by
        rintro ⟨key, value⟩ hmem rfl
        rw [(Dict.get?_ofList_eq_some_iff hnodup).mpr hmem] at hget
        cases hget
      rw [decode_object henter hending, splitMembers_untyped hgives hother, ofMembers, Decoder.entry,
        hget]
      exact .error _ _
  | some written =>
      obtain ⟨node, others, hparted⟩ :=
        exists_parted hgives hnodup ((Dict.get?_ofList_eq_some_iff hnodup).mp hget)
      have hcontent : (Node.object others .closed).toJson .content =
          .ok (.object ((Dict.ofList entries).erase typeKey)) :=
        Json.toJson_object_eq_ok_iff.mpr ⟨.content, _, rfl,
          hparted.gives.imp fun _ _ h => h.unlimited rfl, rfl,
          congrArg Json.object (Dict.ofList_filter hnodup typeKey)⟩
      have hkeys' : (Node.object others .closed).DistinctKeys :=
        .object (hkeys.keys.sublist (hparted.sublist.map _)) fun member hmem =>
          hkeys.members member (hparted.sublist.subset hmem)
      rw [hparted.decode henter hending, ofMembers, Decoder.entry, hget]
      refine (Decoder.variant_faithful _ _ hparted.type (hkeys.members _ hparted.mem)).bind ?_
      rintro kind _ rfl
      exact decodeContent_alike hcontent hkeys' (Json.toJson_node rfl _) (Json.distinctKeys_node _) kind

theorem decode_array {item : Node} {ending : ArrayEnd}
    (henter : origin.enter = .ok inner)
    (hvalues : List.Forall₂ (fun item value => item.toJson inner = .ok value) items values)
    (hending : ending.fault? = none) :
    decode origin (.array (item :: items) ending) =
      Kind.decode inner item >>= fun kind => decodeContent (.array items .closed) kind := by
  rw [decode, split, henter, hending]
  simp only [bind, Except.bind, Json.itemsToJson_eq_ok_iff.mpr hvalues]
  cases Kind.decode inner item <;> rfl

end Split

theorem decode_faithful : decode.Faithful := by
  intro origin node value hvalue hkeys
  cases Node.denotes_of_toJson hvalue with
  | null | bool | number | text => exact .error _ _
  | @array inner items values ending henter hvalues hending =>
      rw [Json.node_array]
      -- The first item tells the type, so there is none in an empty array.
      cases hvalues with
      | nil =>
          rw [decode, split, henter, hending]
          exact .error _ _
      | @cons item value items values hitem hvalues =>
          have hnodes := Json.forall₂_map_node fun value (_ : value ∈ values) =>
            Decoder.json_ofJson value
          have hcontent : (Node.array items .closed).toJson .content = .ok (.array values) :=
            Json.toJson_array_eq_ok_iff.mpr
              ⟨.content, values, rfl, hvalues.imp fun _ _ h => Json.toJson_unlimited rfl h, rfl, rfl⟩
          have hitems := hkeys.items
          rw [List.forall_mem_cons] at hitems
          have hother : (Json.array values).node.toJson .content = .ok (.array values) :=
            Json.toJson_node rfl _
          have hkeys' := Json.distinctKeys_node (.array values)
          rw [Json.node_array] at hother hkeys'
          rw [List.map_cons, decode_array henter hvalues hending, decode_array rfl hnodes rfl]
          refine (Decoder.variant_faithful _ _ hitem hitems.1).bind ?_
          rintro kind _ rfl
          exact decodeContent_alike hcontent (.array hitems.2) hother hkeys' kind
  | @object inner members entries ending henter hentries hending =>
      -- On both routes the state is what its members make in any order.
      have hnodes := Json.gives_map_node fun entry (_ : entry ∈ (Dict.ofList entries).entries) =>
        Decoder.json_ofJson entry.2
      have hkeys' := Json.distinctKeys_node (.object (.ofList entries))
      rw [Json.node_object] at hkeys' ⊢
      have henter' : Origin.value.enter = .ok .value := rfl
      have hvalue := decode_concur_ofMembers henter' hnodes rfl hkeys'
      rw [Dict.ofList_entries] at hvalue
      exact (decode_concur_ofMembers henter hentries hending hkeys).trans hvalue.symm

end State

namespace Machine

theorem pairwise_apart : recordForm.fields.Pairwise Field.Apart := by
  simp only [recordForm, List.pairwise_cons, List.forall_mem_cons, List.not_mem_nil, false_imp_iff,
    implies_true, and_true, List.Pairwise.nil]
  and_intros <;> exact .of_puts (fun _ _ _ => rfl) (fun _ _ _ => rfl) (fun _ _ => rfl) (fun _ _ => rfl)
    fun _ _ _ => rfl

theorem decode_faithful : decode.Faithful := by
  have hfields : ∀ field ∈ recordForm.fields, ∀ draft, (field.fill draft).Faithful := by
    simp only [recordForm, List.forall_mem_cons]
    exact ⟨Field.faithful_required State.decode_faithful.dict,
      Field.faithful_required Decoder.text_faithful,
      Field.faithful_defaulted Decoder.text_faithful.optional,
      Field.faithful_defaulted Decoder.text_faithful,
      Field.faithful_defaulted Decoder.word64_faithful.optional, fun _ h => nomatch h⟩
  exact Record.decode_faithful pairwise_apart hfields

/-- Both readings give the machine, or both list the same violations, or both fail at the document,
with whatever errors. -/
inductive SameVerdict : Except ParseError Machine → Except ParseError Machine → Prop
  | machine (machine : Machine) : SameVerdict (.ok machine) (.ok machine)
  | invalid (violations : List Violation) :
      SameVerdict (.error (.invalid violations)) (.error (.invalid violations))
  | document (error other : DecodeError) :
      SameVerdict (.error (.document error)) (.error (.document other))

section Verdict

variable {first second third : Except ParseError Machine}

theorem sameVerdict_ofDecoded {first second : Except DecodeError Machine}
    (h : Concur (· = ·) first second) : SameVerdict (ofDecoded first) (ofDecoded second) := by
  cases h with
  | @ok machine _ heq =>
      rw [← heq, ofDecoded, checked]
      split
      · exact .machine machine
      · exact .invalid _
  | error error other => exact .document error other

theorem SameVerdict.symm (h : SameVerdict first second) : SameVerdict second first := by
  cases h with
  | machine machine => exact .machine machine
  | invalid violations => exact .invalid violations
  | document error other => exact .document other error

theorem SameVerdict.trans (h : SameVerdict first second) (hthird : SameVerdict second third) :
    SameVerdict first third := by
  cases h with
  | machine | invalid => exact hthird
  | document error other =>
      cases hthird with
      | document _ last => exact .document error last

theorem SameVerdict.toOption (h : SameVerdict first second) : first.toOption = second.toOption := by
  cases h <;> rfl

end Verdict

theorem sameVerdict_of_holds {text : String} {value : Json} (hholds : Json.Holds text value) :
    SameVerdict (ofText text) (ofJson value) :=
  sameVerdict_ofDecoded (decode_faithful.ofText hholds)

/-- A text without repeated keys gets the verdict of the value that it holds. So the blanks between
its tokens and the order of its members change neither the verdict nor the hash. -/
theorem ofText_agrees_ofJson {text : String} {value : Json} (hholds : Json.Holds text value) :
    SameVerdict (ofText text) (ofJson value) ∧
      ∀ other, Relation.ReflTransGen Json.Relaid text other →
        Json.Holds other value ∧ SameVerdict (ofText text) (ofText other) ∧
          (ofText text).toOption.map contentHash = (ofText other).toOption.map contentHash := by
  have hvalue := sameVerdict_of_holds hholds
  refine ⟨hvalue, fun other hrelaid => ?_⟩
  have hother := hholds.layouts hrelaid
  have hsame := hvalue.trans (sameVerdict_of_holds hother).symm
  exact ⟨hother, hsame, congrArg (Option.map contentHash) hsame.toOption⟩

/-- The node of a machine of one task, with the members of the task as they come. -/
def soleNode (members : List (Key × Node)) : Node :=
  .object [(.ok "StartAt", .text (.ok "A")),
    (.ok "States", .object [(.ok "A", .object members .closed)] .closed)] .closed

def soleMembers : List (Key × Node) :=
  [(.ok "Type", .text (.ok "Task")), (.ok "Resource", .text (.ok "R")), (.ok "End", .bool true)]

def soleText : String :=
  "\x7b\"StartAt\":\"A\",\"States\":\x7b\"A\":" ++
    "\x7b\"Type\":\"Task\",\"Resource\":\"R\",\"End\":true\x7d\x7d\x7d"

/-- The task backwards. -/
def turnedText : String :=
  "\x7b\"StartAt\":\"A\",\"States\":\x7b\"A\":" ++
    "\x7b\"End\":true,\"Resource\":\"R\",\"Type\":\"Task\"\x7d\x7d\x7d"

def soleValue : Json :=
  .record [("StartAt", .text "A"), ("States", .record [("A", .record
    [("Type", .text "Task"), ("Resource", .text "R"), ("End", .bool true)])])]

def sole : Machine :=
  { states := .ofList
      [("A", .task { resource := "R", next := none, catchList := none, comment := none })]
    startAt := "A"
    comment := none
    version := defaultVersion
    timeoutSeconds := none }

theorem document_sole : Json.Document.ofText soleText = ⟨soleNode soleMembers, false⟩ := by
  cbv

theorem relaid_turned : Relation.ReflTransGen Json.Relaid soleText ("\n" ++ turnedText) := by
  have hturned : Json.Document.ofText turnedText = ⟨soleNode soleMembers.reverse, false⟩ := by cbv
  have horder : Json.Relaid soleText turnedText := by
    apply Json.Relaid.members
    · rw [document_sole, hturned]
      exact .member [_] [] _ .closed (.member [] [] _ .closed
        (.members .closed soleMembers.reverse_perm.symm))
    · rw [document_sole, hturned]
  have hblank : Json.Relaid turnedText ("\n" ++ turnedText) := by
    apply Json.Relaid.blanks
    rw [String.toList_append]
    exact .add rfl (.same _)
  exact (Relation.ReflTransGen.single horder).tail hblank

theorem ofText_agrees_ofJson_sole :
    Json.Holds soleText soleValue ∧ SameVerdict (ofText soleText) (ofJson soleValue) ∧
      ofText soleText = .ok sole ∧ ofText ("\n" ++ turnedText) = .ok sole := by
  have hended : (Json.Document.ofText soleText).trailing = false := by rw [document_sole]
  have htask : (Node.object soleMembers .closed).DistinctKeys := by
    refine .object (by decide) ?_
    simp only [soleMembers, List.forall_mem_cons]
    exact ⟨.text _, .text _, .bool _, fun _ h => nomatch h⟩
  have hstates : (Node.object [(.ok "A", .object soleMembers .closed)] .closed).DistinctKeys :=
    .object (List.nodup_singleton _) (List.forall_mem_singleton.mpr htask)
  have hkeys : (soleNode soleMembers).DistinctKeys := by
    refine .object (by decide) ?_
    simp only [List.forall_mem_cons]
    exact ⟨.text _, hstates, fun _ h => nomatch h⟩
  have hholds : Json.Holds soleText soleValue := by
    constructor
    · rw [Decoder.ofText_of_ended hended, document_sole]
      rfl
    · rw [document_sole]
      exact hkeys
  have hread : ofText soleText = .ok sole := by
    rw [ofText, Decoder.ofText_of_ended hended, document_sole]
    rfl
  obtain ⟨hvalue, hlayouts⟩ := ofText_agrees_ofJson hholds
  obtain ⟨-, hturned, -⟩ := hlayouts _ relaid_turned
  rw [hread] at hturned
  refine ⟨hholds, hvalue, hread, ?_⟩
  generalize ofText ("\n" ++ turnedText) = other at hturned ⊢
  cases hturned
  rfl

end Machine

end Workflow
