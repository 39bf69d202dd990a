import Workflow.Proofs.Decode.Grammar
import Workflow.Proofs.Definition.References
import Workflow.Proofs.Definition.Routes

/-!
# The documents of machines

Which values are documents of machines, and which machine each of them is the document of.
-/

namespace Workflow

open Json Decoder

/-- A catcher lists codes and names the state to go on with. -/
structure Json.IsCatcher (doc : Json) : Prop where
  codes : doc.Has "ErrorEquals" (IsArrayOf IsText)
  next : doc.Has "Next" IsText

namespace Catcher

def toldBy (doc : Json) : Catcher :=
  { codes := doc.told "ErrorEquals" (asList asText) []
    next := doc.told "Next" asText "" }

theorem isSimple_recordForm : recordForm.IsSimple :=
  ⟨pairwise_apart, by decide, by decide⟩

theorem finish_yieldsIff (draft : Draft) :
    YieldsIff (recordForm.finish draft) (draft.codes.isSome = true ∧ draft.next.isSome = true ∧ True)
      { codes := draft.codes.getD [], next := draft.next.getD "" } :=
  (need_yieldsIff _ _ []).bind fun _ => (need_yieldsIff _ _ "").bind fun _ => .ok _

theorem decode_yieldsIff {doc : Json} (hdoc : doc.IsNoArray) :
    YieldsIff (decode.ofJson doc) doc.IsCatcher (toldBy doc) := by
  refine Record.yieldsIff_of_object hdoc (fun h => h.next.exists_object) ?_
  rintro members rfl
  have hfields : YieldsIff (recordForm.fields.foldlM (Field.enter members) recordForm.blank) _ _ :=
    .foldlM_cons
      (Field.required_yieldsIff rfl fun _ _ => list_yieldsIff fun _ _ item _ => text_yieldsIff item)
      (.foldlM_cons (Field.required_yieldsIff rfl fun value _ => text_yieldsIff value) .foldlM_nil)
  refine (isSimple_recordForm.object_yieldsIff hfields (finish_yieldsIff _)).congr ⟨?_, ?_⟩ fun _ => rfl
  · rintro ⟨⟨hcodes, hnext, -⟩, hsomeCodes, hsomeNext, -⟩
    exact ⟨has_iff.mpr ⟨hcodes, hsomeCodes⟩, has_iff.mpr ⟨hnext, hsomeNext⟩⟩
  · intro h
    obtain ⟨hcodes, hsomeCodes⟩ := has_iff.mp h.codes
    obtain ⟨hnext, hsomeNext⟩ := has_iff.mp h.next
    exact ⟨⟨hcodes, hnext, trivial⟩, hsomeCodes, hsomeNext, trivial⟩

end Catcher

/-- A task names its resource and either goes on to a next state or ends. -/
structure Json.IsTask (doc : Json) : Prop where
  resource : doc.Has "Resource" IsText
  next : doc.MayHave "Next" (IsNullOr IsText)
  ends : doc.MayHave "End" (IsNullOr IsBool)
  /-- Either `Next` is a text or `End` is true, and not both. -/
  onward : Xor (doc.Has "Next" IsText) (doc.Has "End" (· = .bool true))
  catchList : doc.MayHave "Catch" (IsNullOr (IsArrayOf IsCatcher))
  comment : doc.MayHave "Comment" (IsNullOr IsText)

namespace TaskState

def toldBy (doc : Json) : TaskState :=
  { resource := doc.told "Resource" asText ""
    next := doc.told? "Next" asText
    catchList := doc.told? "Catch" (asList Catcher.toldBy)
    comment := doc.told? "Comment" asText }

/-- The draft that the members of a document fill. -/
def Draft.toldBy (doc : Json) : Draft :=
  { resource := (doc.at? "Resource").map asText
    next := (doc.at? "Next").map (asOption asText)
    ends := (doc.at? "End").map (asOption asBool)
    catchList := (doc.at? "Catch").map (asOption (asList Catcher.toldBy))
    comment := (doc.at? "Comment").map (asOption asText) }

theorem isSimple_recordForm : recordForm.IsSimple :=
  ⟨pairwise_apart, by decide, by decide⟩

theorem finish_yieldsIff (draft : Draft) :
    YieldsIff (recordForm.finish draft) (draft.resource.isSome = true ∧ True)
      { resource := draft.resource.getD ""
        next := draft.next.join
        ends := draft.ends.join
        catchList := draft.catchList.join
        comment := draft.comment.join } :=
  (need_yieldsIff _ _ "").bind fun _ => .ok _

theorem ofDocument_yieldsIff (document : Document) :
    YieldsIff (ofDocument document) (Xor (document.next.isSome = true) (document.ends = some true))
      { resource := document.resource
        next := document.next
        catchList := document.catchList
        comment := document.comment } := by
  obtain ⟨resource, next, ends, catchList, comment⟩ := document
  rcases next with - | next <;> rcases ends with - | - | -
  all_goals first
    | exact .error (by simp [Xor]) _ _
    | exact (YieldsIff.ok _).congr (by simp [Xor]) fun _ => rfl

theorem onward_iff {doc : Json} (hnext : doc.MayHave "Next" (IsNullOr IsText)) :
    Xor ((doc.told? "Next" asText).isSome = true) (doc.told? "End" asBool = some true) ↔
      Xor (doc.Has "Next" IsText) (doc.Has "End" (· = .bool true)) := by
  have hnull : ¬ IsText .null := by
    rintro ⟨text, htext⟩
    cases congrArg Json.tree htext
  rw [isSome_told?_iff hnext hnull, told?_asBool_iff]

variable {members : Dict Json}

theorem fields_yieldsIff
    (hcatch : (Json.object members).MayHave "Catch" (ForItems IsNoArray)) :
    YieldsIff (recordForm.fields.foldlM (Field.enter members) recordForm.blank)
      ((Json.object members).MayHave "Resource" IsText ∧
        (Json.object members).MayHave "Next" (IsNullOr IsText) ∧
        (Json.object members).MayHave "End" (IsNullOr IsBool) ∧
        (Json.object members).MayHave "Catch" (IsNullOr (IsArrayOf IsCatcher)) ∧
        (Json.object members).MayHave "Comment" (IsNullOr IsText) ∧ True)
      (.toldBy (.object members)) := by
  have hcatchers : ∀ value, members.get? "Catch" = some value →
      YieldsIff ((list Catcher.decode).ofJson value) (value.IsArrayOf IsCatcher)
        (value.asList Catcher.toldBy) := by
    intro value hvalue
    refine list_yieldsIff fun items heq item hitem => Catcher.decode_yieldsIff ?_
    exact hcatch value ((at?_object members _).trans hvalue) items heq item hitem
  -- One law a field, in declared order.
  exact .foldlM_cons (Field.required_yieldsIff rfl fun value _ => text_yieldsIff value)
    (.foldlM_cons (Field.nullable_yieldsIff rfl fun value _ => text_yieldsIff value)
      (.foldlM_cons (Field.nullable_yieldsIff rfl fun value _ => bool_yieldsIff value)
        (.foldlM_cons (Field.nullable_yieldsIff rfl hcatchers)
          (.foldlM_cons (Field.nullable_yieldsIff rfl fun value _ => text_yieldsIff value)
            .foldlM_nil))))

/-- A task is read from an object whose catchers are no arrays. -/
theorem decode_yieldsIff
    (hcatch : (Json.object members).MayHave "Catch" (ForItems IsNoArray)) :
    YieldsIff (decode.ofJson (.object members)) (Json.object members).IsTask
      (toldBy (.object members)) := by
  have hrecord := isSimple_recordForm.object_yieldsIff (fields_yieldsIff hcatch) (finish_yieldsIff _)
  refine (hrecord.bind fun _ => ofDocument_yieldsIff _).congr ?_ fun _ => rfl
  -- What is left compares two conditions on the document, whatever its members are.
  generalize Json.object members = doc
  constructor
  · rintro ⟨⟨⟨hresource, hnext, hends, hcatchList, hcomment, -⟩, hsome, -⟩, honward⟩
    exact ⟨has_iff.mpr ⟨hresource, hsome⟩, hnext, hends, (onward_iff hnext).mp honward, hcatchList,
      hcomment⟩
  · intro h
    obtain ⟨hresource, hsome⟩ := has_iff.mp h.resource
    exact ⟨⟨⟨hresource, h.next, h.ends, h.catchList, h.comment, trivial⟩, hsome, trivial⟩,
      (onward_iff h.next).mpr h.onward⟩

end TaskState

/-- A failure has a code and a cause. -/
structure Json.IsFail (doc : Json) : Prop where
  error : doc.Has "Error" IsText
  cause : doc.Has "Cause" IsText
  comment : doc.MayHave "Comment" (IsNullOr IsText)

namespace FailState

def toldBy (doc : Json) : FailState :=
  { error := doc.told "Error" asText ""
    cause := doc.told "Cause" asText ""
    comment := doc.told? "Comment" asText }

theorem isSimple_recordForm : recordForm.IsSimple :=
  ⟨pairwise_apart, by decide, by decide⟩

theorem finish_yieldsIff (draft : Draft) :
    YieldsIff (recordForm.finish draft) (draft.error.isSome = true ∧ draft.cause.isSome = true ∧ True)
      { error := draft.error.getD "", cause := draft.cause.getD "", comment := draft.comment.join } :=
  (need_yieldsIff _ _ "").bind fun _ => (need_yieldsIff _ _ "").bind fun _ => .ok _

theorem decode_yieldsIff (members : Dict Json) :
    YieldsIff (decode.ofJson (.object members)) (Json.object members).IsFail
      (toldBy (.object members)) := by
  have hfields : YieldsIff (recordForm.fields.foldlM (Field.enter members) recordForm.blank) _ _ :=
    .foldlM_cons (Field.required_yieldsIff rfl fun value _ => text_yieldsIff value)
      (.foldlM_cons (Field.required_yieldsIff rfl fun value _ => text_yieldsIff value)
        (.foldlM_cons (Field.nullable_yieldsIff rfl fun value _ => text_yieldsIff value) .foldlM_nil))
  refine (isSimple_recordForm.object_yieldsIff hfields (finish_yieldsIff _)).congr ⟨?_, ?_⟩ fun _ => rfl
  · rintro ⟨⟨herror, hcause, hcomment, -⟩, hsomeError, hsomeCause, -⟩
    exact ⟨has_iff.mpr ⟨herror, hsomeError⟩, has_iff.mpr ⟨hcause, hsomeCause⟩, hcomment⟩
  · intro h
    obtain ⟨herror, hsomeError⟩ := has_iff.mp h.error
    obtain ⟨hcause, hsomeCause⟩ := has_iff.mp h.cause
    exact ⟨⟨herror, hcause, h.comment, trivial⟩, hsomeError, hsomeCause, trivial⟩

end FailState

/-- A state tells its type. A task and a failure have members of their own; a state that succeeds has
no more than a comment. -/
inductive Json.IsState (doc : Json) : Prop
  | task (type : doc.Has "Type" (· = .text "Task")) (content : doc.IsTask)
  | succeed (type : doc.Has "Type" fun name => name = .text "Succeed" ∨ name = .text "Success")
      (comment : doc.MayHave "Comment" (IsNullOr IsText))
  | fail (type : doc.Has "Type" (· = .text "Fail")) (content : doc.IsFail)

namespace State

/-- The type that a name stands for; success if it stands for none. -/
def Kind.toldBy (name : Json) : Kind :=
  match name.asText with
  | "Task" => .task
  | "Fail" => .fail
  | _ => .succeed

/-- Whether a name stands for a type of state. -/
def Kind.IsName (name : Json) : Prop :=
  name = .text "Task" ∨ name = .text "Succeed" ∨ name = .text "Success" ∨ name = .text "Fail"

/-- Whether a document has what a state of some type has besides. -/
def Kind.IsContent (doc : Json) : Kind → Prop
  | .task => doc.IsTask
  | .succeed => doc.MayHave "Comment" (IsNullOr IsText)
  | .fail => doc.IsFail

/-- What a document is as a state of some type. -/
def ofKind (doc : Json) : Kind → State
  | .task => .task (TaskState.toldBy doc)
  | .succeed => .succeed (doc.told? "Comment" asText)
  | .fail => .fail (FailState.toldBy doc)

def toldBy (doc : Json) : State :=
  ofKind doc (doc.told "Type" Kind.toldBy .succeed)

theorem isSimple_succeedForm : succeedForm.IsSimple :=
  ⟨List.pairwise_singleton _ _, by decide, by decide⟩

theorem finish_succeedForm_yieldsIff (draft : Option (Option String)) :
    YieldsIff (succeedForm.finish draft) True draft.join :=
  .ok _

theorem decode_succeedForm_yieldsIff (members : Dict Json) :
    YieldsIff (succeedForm.decode.ofJson (.object members))
      ((Json.object members).MayHave "Comment" (IsNullOr IsText))
      ((Json.object members).told? "Comment" asText) := by
  have hfields : YieldsIff (succeedForm.fields.foldlM (Field.enter members) succeedForm.blank) _ _ :=
    .foldlM_cons (Field.nullable_yieldsIff rfl fun value _ => text_yieldsIff value) .foldlM_nil
  have hrecord := isSimple_succeedForm.object_yieldsIff hfields (finish_succeedForm_yieldsIff _)
  exact hrecord.congr (by rw [and_true, and_true]) fun _ => rfl

theorem Kind.decode_yieldsIff (name : Json) :
    YieldsIff (Kind.decode.ofJson name) (IsName name) (toldBy name) := by
  refine (variant_yieldsIff known _ .succeed name).congr (by simp [known, IsName]) ?_
  rintro (rfl | rfl | rfl | rfl) <;> rfl

theorem isState_iff {doc : Json} : doc.IsState ↔
    doc.Has "Type" Kind.IsName ∧ Kind.IsContent doc (doc.told "Type" Kind.toldBy .succeed) := by
  constructor
  · intro h
    cases h with
    | task type content =>
        obtain ⟨_, hname, rfl⟩ := type
        rw [told_of_at? hname]
        exact ⟨⟨_, hname, .inl rfl⟩, content⟩
    | succeed type comment =>
        obtain ⟨_, hname, rfl | rfl⟩ := type
        all_goals rw [told_of_at? hname]
        · exact ⟨⟨_, hname, .inr (.inl rfl)⟩, comment⟩
        · exact ⟨⟨_, hname, .inr (.inr (.inl rfl))⟩, comment⟩
    | fail type content =>
        obtain ⟨_, hname, rfl⟩ := type
        rw [told_of_at? hname]
        exact ⟨⟨_, hname, .inr (.inr (.inr rfl))⟩, content⟩
  · rintro ⟨⟨name, hname, rfl | rfl | rfl | rfl⟩, hcontent⟩
    all_goals rw [told_of_at? hname] at hcontent
    · exact .task ⟨_, hname, rfl⟩ hcontent
    · exact .succeed ⟨_, hname, .inl rfl⟩ hcontent
    · exact .succeed ⟨_, hname, .inr rfl⟩ hcontent
    · exact .fail ⟨_, hname, rfl⟩ hcontent

section Object

variable {members : Dict Json}

/-- Whether a decoder looks past the member that tells the type. -/
def SkipsType {α : Type} (decode : Decoder α) : Prop :=
  ∀ members, Concur (· = ·) (decode.ofJson (.object (members.erase typeKey)))
    (decode.ofJson (.object members))

/-- As the content of a state a value is decoded as by itself. -/
theorem content_concur {α : Type} {decode : Decoder α} (h : decode.Faithful)
    (hskips : SkipsType decode) :
    Concur (· = ·) (decode .content (Json.object (members.erase typeKey)).node)
      (decode.ofJson (.object members)) :=
  (h (Json.toJson_node rfl _) (Json.distinctKeys_node _)).trans (hskips members)

theorem decodeContent_yieldsIff (hcatch : (Json.object members).MayHave "Catch" (ForItems IsNoArray))
    (kind : Kind) :
    YieldsIff (decodeContent (Json.object (members.erase typeKey)).node kind)
      (Kind.IsContent (.object members) kind) (ofKind (.object members) kind) := by
  cases kind with
  | task =>
      have hskips : SkipsType TaskState.decode := fun members =>
        (TaskState.isSimple_recordForm.ofJson_erase members (by decide)).bind
          fun _ _ heq => heq ▸ .refl _
      exact ((TaskState.decode_yieldsIff hcatch).of_concur
        (content_concur TaskState.decode_faithful hskips)).map State.task
  | succeed =>
      have hskips : SkipsType succeedForm.decode := fun members =>
        isSimple_succeedForm.ofJson_erase members (by decide)
      exact ((decode_succeedForm_yieldsIff members).of_concur
        (content_concur succeedForm_faithful hskips)).map State.succeed
  | fail =>
      have hskips : SkipsType FailState.decode := fun members =>
        FailState.isSimple_recordForm.ofJson_erase members (by decide)
      exact ((FailState.decode_yieldsIff members).of_concur
        (content_concur FailState.decode_faithful hskips)).map State.fail

theorem ofMembers_yieldsIff (hcatch : (Json.object members).MayHave "Catch" (ForItems IsNoArray)) :
    YieldsIff (ofMembers members) (Json.object members).IsState (toldBy (.object members)) := by
  have hkind := entry_yieldsIff .succeed fun name (_ : members.get? typeKey = some name) =>
    Kind.decode_yieldsIff name
  exact (hkind.bind fun _ => decodeContent_yieldsIff hcatch _).congr isState_iff.symm fun _ => rfl

end Object

theorem decode_yieldsIff {doc : Json} (hdoc : doc.IsNoArray)
    (hcatch : doc.MayHave "Catch" (ForItems IsNoArray)) :
    YieldsIff (decode.ofJson doc) doc.IsState (toldBy doc) := by
  induction doc using Json.induction with
  | object members =>
      have hnodes := gives_map_node fun entry (_ : entry ∈ members.entries) => json_ofJson entry.2
      have hkeys := distinctKeys_node (.object members)
      rw [node_object] at hkeys
      have henter : Origin.value.enter = .ok .value := rfl
      have hread := decode_concur_ofMembers henter hnodes rfl hkeys
      rw [Dict.ofList_entries] at hread
      refine (ofMembers_yieldsIff hcatch).of_concur ?_
      rwa [ofJson, node_object]
  | array items => exact absurd rfl (hdoc items)
  | null | bool | number | text =>
      refine .error (fun hstate => ?_) _ _
      obtain ⟨members, heq⟩ := (isState_iff.mp hstate).1.exists_object
      cases congrArg Json.tree heq

end State

/-- A machine names its start and lists its states. Its version may be left out but not be null; its
timeout is a word. -/
structure Json.IsMachine (doc : Json) : Prop where
  startAt : doc.Has "StartAt" IsText
  states : doc.Has "States" (IsObjectOf IsState)
  comment : doc.MayHave "Comment" (IsNullOr IsText)
  version : doc.MayHave "Version" IsText
  timeoutSeconds : doc.MayHave "TimeoutSeconds" (IsNullOr IsWord64)

/-- No array stands for the machine, for a state or for a catcher. -/
structure Json.IsUnlisted (doc : Json) : Prop where
  machine : doc.IsNoArray
  states : doc.MayHave "States" (ForMembers IsNoArray)
  catchers : doc.MayHave "States" (ForMembers (MayHave · "Catch" (ForItems IsNoArray)))

namespace Machine

def toldBy (doc : Json) : Machine :=
  { states := doc.told "States" (asDict State.toldBy) .empty
    startAt := doc.told "StartAt" asText ""
    comment := doc.told? "Comment" asText
    version := doc.told "Version" asText defaultVersion
    timeoutSeconds := doc.told? "TimeoutSeconds" asWord64 }

/-- The draft that the members of a document fill. -/
def Draft.toldBy (doc : Json) : Draft :=
  { states := (doc.at? "States").map (asDict State.toldBy)
    startAt := (doc.at? "StartAt").map asText
    comment := (doc.at? "Comment").map (asOption asText)
    version := (doc.at? "Version").map asText
    timeoutSeconds := (doc.at? "TimeoutSeconds").map (asOption asWord64) }

theorem isSimple_recordForm : recordForm.IsSimple :=
  ⟨pairwise_apart, by decide, by decide⟩

theorem finish_yieldsIff (draft : Draft) :
    YieldsIff (recordForm.finish draft) (draft.states.isSome = true ∧ draft.startAt.isSome = true ∧ True)
      { states := draft.states.getD .empty
        startAt := draft.startAt.getD ""
        comment := draft.comment.join
        version := draft.version.getD defaultVersion
        timeoutSeconds := draft.timeoutSeconds.join } :=
  (need_yieldsIff "States" draft.states .empty).bind fun _ => (need_yieldsIff _ _ "").bind fun _ => .ok _

theorem fields_yieldsIff {members : Dict Json} (hunlisted : (Json.object members).IsUnlisted) :
    YieldsIff (recordForm.fields.foldlM (Field.enter members) recordForm.blank)
      ((Json.object members).MayHave "States" (IsObjectOf IsState) ∧
        (Json.object members).MayHave "StartAt" IsText ∧
        (Json.object members).MayHave "Comment" (IsNullOr IsText) ∧
        (Json.object members).MayHave "Version" IsText ∧
        (Json.object members).MayHave "TimeoutSeconds" (IsNullOr IsWord64) ∧ True)
      (.toldBy (.object members)) := by
  have hstates : ∀ value, members.get? "States" = some value →
      YieldsIff ((dict State.decode).ofJson value) (value.IsObjectOf IsState)
        (value.asDict State.toldBy) := by
    intro value hvalue
    have hget := (at?_object members _).trans hvalue
    refine dict_yieldsIff fun states heq entry hentry => State.decode_yieldsIff ?_ ?_
    · exact hunlisted.states value hget states heq entry hentry
    · exact hunlisted.catchers value hget states heq entry hentry
  exact .foldlM_cons (Field.required_yieldsIff rfl hstates)
    (.foldlM_cons (Field.required_yieldsIff rfl fun value _ => text_yieldsIff value)
      (.foldlM_cons (Field.nullable_yieldsIff rfl fun value _ => text_yieldsIff value)
        (.foldlM_cons (Field.defaulted_yieldsIff rfl fun value _ => text_yieldsIff value)
          (.foldlM_cons (Field.nullable_yieldsIff rfl fun value _ => word64_yieldsIff value)
            .foldlM_nil))))

theorem decode_yieldsIff {doc : Json} (hunlisted : doc.IsUnlisted) :
    YieldsIff (decode.ofJson doc) doc.IsMachine (toldBy doc) := by
  refine Record.yieldsIff_of_object hunlisted.machine (fun h => h.startAt.exists_object) ?_
  rintro members rfl
  have hrecord := isSimple_recordForm.object_yieldsIff (fields_yieldsIff hunlisted) (finish_yieldsIff _)
  refine hrecord.congr ⟨?_, ?_⟩ fun _ => rfl
  · rintro ⟨⟨hstates, hstartAt, hcomment, hversion, htimeout, -⟩, hsomeStates, hsomeStart, -⟩
    exact ⟨has_iff.mpr ⟨hstartAt, hsomeStart⟩, has_iff.mpr ⟨hstates, hsomeStates⟩, hcomment, hversion,
      htimeout⟩
  · intro h
    obtain ⟨hstartAt, hsomeStart⟩ := has_iff.mp h.startAt
    obtain ⟨hstates, hsomeStates⟩ := has_iff.mp h.states
    exact ⟨⟨hstates, hstartAt, h.comment, h.version, h.timeoutSeconds, trivial⟩, hsomeStates, hsomeStart,
      trivial⟩

theorem ofJson_of_isMachine {doc : Json} (hunlisted : doc.IsUnlisted) (h : doc.IsMachine) :
    ofJson doc = (toldBy doc).checked := by
  rw [ofJson, (decode_yieldsIff hunlisted _).mpr ⟨h, rfl⟩, ofDecoded]

theorem exists_document_of_not_isMachine {doc : Json} (hunlisted : doc.IsUnlisted)
    (h : ¬ doc.IsMachine) :
    ∃ error, ofJson doc = .error (.document error) := by
  obtain ⟨error, herror⟩ := (decode_yieldsIff hunlisted).exists_error h
  exact ⟨error, by rw [ofJson, herror, ofDecoded]⟩

/-- Which documents are machines, and which machine each of them is. A document of the wrong form is
told apart from a machine with references that lead nowhere. -/
theorem ofJson_accepts_iff {doc : Json} (hunlisted : doc.IsUnlisted) :
    ((∃ machine, ofJson doc = .ok machine) ↔ doc.IsMachine ∧ (toldBy doc).IsClosed) ∧
      (∀ machine, ofJson doc = .ok machine → machine = toldBy doc) ∧
      (doc.IsMachine → ¬ (toldBy doc).IsClosed →
        ofJson doc = .error (.invalid (toldBy doc).violations)) ∧
      (¬ doc.IsMachine → ∃ error, ofJson doc = .error (.document error)) := by
  by_cases hmachine : doc.IsMachine
  · have hread := ofJson_of_isMachine hunlisted hmachine
    by_cases hclosed : (toldBy doc).IsClosed
    · rw [checked_of_isClosed hclosed] at hread
      rw [hread]
      exact ⟨⟨fun _ => ⟨hmachine, hclosed⟩, fun _ => ⟨_, rfl⟩⟩, fun _ heq => (Except.ok.inj heq).symm,
        fun _ hnot => absurd hclosed hnot, fun hnot => absurd hmachine hnot⟩
    · rw [checked_of_not_isClosed hclosed] at hread
      rw [hread]
      exact ⟨⟨fun ⟨_, heq⟩ => (nomatch heq), fun h => absurd h.2 hclosed⟩, fun _ heq => (nomatch heq),
        fun _ _ => rfl, fun hnot => absurd hmachine hnot⟩
  · obtain ⟨error, hread⟩ := exists_document_of_not_isMachine hunlisted hmachine
    rw [hread]
    exact ⟨⟨fun ⟨_, heq⟩ => (nomatch heq), fun h => absurd h.1 hmachine⟩, fun _ heq => (nomatch heq),
      fun h => absurd h hmachine, fun _ => ⟨error, rfl⟩⟩

def carryDocument : Json :=
  .record [("Type", .text "Task"), ("Resource", .text "courier"), ("Next", .text "Home"),
    ("End", .bool false), ("Comment", .null),
    ("Catch", .array [.record [("ErrorEquals", .array [.text anyError]), ("Next", .text "Lost")]])]

def lostDocument : Json :=
  .record [("Type", .text "Fail"), ("Error", .text "Lost"), ("Cause", .text "storm")]

def errandDocument : Json :=
  .record [("StartAt", .text "Carry"), ("States", .record
    [("Carry", carryDocument), ("Home", .record [("Type", .text "Success")]), ("Lost", lostDocument)])]

theorem isUnlisted_errandDocument : errandDocument.IsUnlisted where
  machine := isNoArray_object _
  states := by
    rintro _ ⟨⟩
    refine forMembers_record ?_
    simp only [List.forall_mem_cons]
    exact ⟨isNoArray_object _, isNoArray_object _, isNoArray_object _, fun _ h => nomatch h⟩
  catchers := by
    rintro _ ⟨⟩
    refine forMembers_record ?_
    simp only [List.forall_mem_cons]
    refine ⟨?_, ?_, ?_, fun _ h => nomatch h⟩
    · rintro _ ⟨⟩
      exact forItems_array (List.forall_mem_singleton.mpr (isNoArray_object _))
    · rintro _ ⟨⟩
    · rintro _ ⟨⟩

theorem isTask_carryDocument : carryDocument.IsTask where
  resource := ⟨_, rfl, _, rfl⟩
  next := by
    rintro _ ⟨⟩
    exact .inr ⟨_, rfl⟩
  ends := by
    rintro _ ⟨⟩
    exact .inr ⟨_, rfl⟩
  onward := by
    refine .inl ⟨⟨_, rfl, _, rfl⟩, ?_⟩
    rintro ⟨_, ⟨⟩, heq⟩
    cases congrArg Json.tree heq
  catchList := by
    rintro _ ⟨⟩
    refine .inr ⟨_, rfl, List.forall_mem_singleton.mpr ⟨?_, ?_⟩⟩
    · exact ⟨_, rfl, _, rfl, List.forall_mem_singleton.mpr ⟨_, rfl⟩⟩
    · exact ⟨_, rfl, _, rfl⟩
  comment := by
    rintro _ ⟨⟩
    exact .inl rfl

theorem isMachine_errandDocument : errandDocument.IsMachine where
  startAt := ⟨_, rfl, _, rfl⟩
  states := by
    refine ⟨_, rfl, isObjectOf_record ?_⟩
    simp only [List.forall_mem_cons]
    refine ⟨.task ⟨_, rfl, rfl⟩ isTask_carryDocument, .succeed ⟨_, rfl, .inr rfl⟩ ?_,
      .fail ⟨_, rfl, rfl⟩ ⟨⟨_, rfl, _, rfl⟩, ⟨_, rfl, _, rfl⟩, ?_⟩, fun _ h => nomatch h⟩
    · rintro _ ⟨⟩
    · rintro _ ⟨⟩
  comment := by rintro _ ⟨⟩
  version := by rintro _ ⟨⟩
  timeoutSeconds := by rintro _ ⟨⟩

theorem ofJson_accepts_errand :
    errandDocument.IsUnlisted ∧ errandDocument.IsMachine ∧ ofJson errandDocument = .ok errand := by
  have htold : toldBy errandDocument = errand := rfl
  have hclosed : (toldBy errandDocument).IsClosed := violations_eq_nil_iff.mp (htold ▸ violations_errand)
  obtain ⟨haccepts, hmachine, -, -⟩ := ofJson_accepts_iff isUnlisted_errandDocument
  obtain ⟨machine, hread⟩ := haccepts.mpr ⟨isMachine_errandDocument, hclosed⟩
  rw [hmachine machine hread, htold] at hread
  exact ⟨isUnlisted_errandDocument, isMachine_errandDocument, hread⟩

end Machine

end Workflow
