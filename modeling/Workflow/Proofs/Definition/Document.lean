import Workflow.Definition.Encode
import Workflow.Proofs.Definition.Routes

/-!
# Documents of machines

Every part of a machine is read back from its document. A machine without violations passes the
check of its references, so it is read back as a whole, from its document and from its text.
-/

namespace Workflow

open Json (Key Node Fits readKey)
open Record (Fills)

section Optional

variable {α : Type} {levels : Nat} {name : String} {value : Option α} {encode : α → Json}

theorem keys_optionalMember_sublist :
    ((optionalMember name value encode).map (·.1)).Sublist [name] := by
  cases value with
  | none => exact List.nil_sublist _
  | some held => exact List.Sublist.refl _

theorem fits_optionalMember (h : ∀ held ∈ value, (encode held).Fits levels) :
    ∀ member ∈ optionalMember name value encode, member.2.Fits levels := by
  intro member hmember
  obtain ⟨held, hheld, rfl⟩ := List.mem_map.mp hmember
  exact h held (Option.mem_toList.mp hheld)

end Optional

namespace Catcher

theorem fits_toJson (catcher : Catcher) : catcher.toJson.Fits 2 := by
  apply Json.fits_record
  intro member hmember
  rcases List.mem_pair.mp hmember with rfl | rfl
  · apply Json.fits_array
    intro item hitem
    obtain ⟨code, -, rfl⟩ := List.mem_map.mp hitem
    exact Json.fits_text code
  · exact Json.fits_text catcher.next

theorem decode_reads (catcher : Catcher) : decode.Reads 2 catcher.toJson catcher := by
  have hcodes : Fills recordForm.fields 1 [("ErrorEquals", .array (catcher.codes.map .text))]
      {} { codes := some catcher.codes } :=
    Record.fills_required rfl rfl (.list fun code _ => Decoder.reads_text code) rfl
  have hnext : Fills recordForm.fields 1 [("Next", .text catcher.next)]
      { codes := some catcher.codes } { codes := some catcher.codes, next := some catcher.next } :=
    Record.fills_required rfl rfl (Decoder.reads_text catcher.next) rfl
  have hordered : ["ErrorEquals", "Next"].Pairwise (· < ·) := by decide
  exact Record.reads_record (.refl _) hordered (hcodes.append hnext) rfl

end Catcher

namespace TaskState

/-- The member that tells where a task goes on. -/
def onward (task : TaskState) : String × Json :=
  match task.next with
  | some next => ("Next", .text next)
  | none => ("End", .bool true)

/-- The members of a task in the order of their names. -/
def ordered (task : TaskState) : List (String × Json) :=
  optionalMember "Catch" task.catchList (fun catchers => .array (catchers.map (·.toJson))) ++
    optionalMember "Comment" task.comment .text ++
    [task.onward] ++ [("Resource", .text task.resource)]

theorem perm_ordered (task : TaskState) : (State.taskMembers task).Perm task.ordered := by
  have hmembers : State.taskMembers task = ("Resource", .text task.resource) :: [task.onward] ++
      optionalMember "Catch" task.catchList (fun catchers => .array (catchers.map (·.toJson))) ++
      optionalMember "Comment" task.comment .text := by
    unfold State.taskMembers onward
    cases task.next <;> rfl
  rw [hmembers, ordered, List.perm_iff_count]
  intro member
  simp only [List.count_append, List.count_cons, List.count_nil]
  omega

theorem keys_ordered (task : TaskState) :
    ((task.ordered ++ [(State.typeKey, Json.text "Task")]).map Prod.fst).Pairwise (· < ·) := by
  have honward : task.onward.1 = "Next" ∨ task.onward.1 = "End" := by
    unfold onward
    cases task.next with
    | none => exact .inr rfl
    | some next => exact .inl rfl
  have hkeys : (["Catch"] ++ ["Comment"] ++ [task.onward.1] ++ ["Resource"] ++
      [State.typeKey]).Pairwise (· < ·) := by
    rcases honward with h | h <;> rw [h] <;> decide
  refine hkeys.sublist ?_
  simp only [ordered, List.map_append]
  exact (((keys_optionalMember_sublist.append keys_optionalMember_sublist).append
    (List.Sublist.refl _)).append (List.Sublist.refl _)).append (List.Sublist.refl _)

theorem fits_onward (task : TaskState) {levels : Nat} : task.onward.2.Fits levels := by
  unfold onward
  cases task.next with
  | none => exact Json.fits_bool true
  | some next => exact Json.fits_text next

theorem fits_ordered (task : TaskState) : ∀ member ∈ task.ordered, member.2.Fits 3 := by
  intro member hmember
  simp only [ordered, List.mem_append, List.mem_singleton] at hmember
  rcases hmember with ((hcatch | hcomment) | rfl) | rfl
  · refine fits_optionalMember (fun catchers _ => Json.fits_array fun item hitem => ?_) member hcatch
    obtain ⟨catcher, -, rfl⟩ := List.mem_map.mp hitem
    exact catcher.fits_toJson
  · exact fits_optionalMember (fun comment _ => Json.fits_text comment) member hcomment
  · exact task.fits_onward
  · exact Json.fits_text task.resource

theorem fills_catch (task : TaskState) :
    Fills recordForm.fields 3
      (optionalMember "Catch" task.catchList (fun catchers => .array (catchers.map (·.toJson))))
      {} { catchList := task.catchList.map some } :=
  Record.fills_optional rfl rfl rfl
    (fun _ _ => .list fun catcher _ => catcher.decode_reads) (fun _ h => nomatch h) rfl

theorem fills_comment (task : TaskState) :
    Fills recordForm.fields 3 (optionalMember "Comment" task.comment .text)
      { catchList := task.catchList.map some }
      { catchList := task.catchList.map some, comment := task.comment.map some } :=
  Record.fills_optional rfl rfl rfl (fun comment _ => Decoder.reads_text comment)
    (fun _ h => nomatch h) rfl

/-- The draft of a task before its resource is read. -/
def unsourced (task : TaskState) : Draft :=
  { next := task.next.map some
    ends := if task.next.isNone then some (some true) else none
    catchList := task.catchList.map some
    comment := task.comment.map some }

theorem fills_onward (task : TaskState) :
    Fills recordForm.fields 3 [task.onward]
      { catchList := task.catchList.map some, comment := task.comment.map some }
      task.unsourced := by
  unfold onward unsourced
  cases task.next with
  | none =>
      exact Record.fills_defaulted rfl rfl
        ((Decoder.reads_bool true).optional fun h => nomatch h) rfl
  | some next =>
      exact Record.fills_defaulted rfl rfl
        ((Decoder.reads_text next).optional fun h => nomatch h) rfl

theorem fills_ordered (task : TaskState) :
    Fills recordForm.fields 3 task.ordered {}
      { task.unsourced with resource := some task.resource } :=
  ((task.fills_catch.append task.fills_comment).append task.fills_onward).append
    (Record.fills_required rfl rfl (Decoder.reads_text task.resource) rfl)

/-- A task as it is written. -/
def document (task : TaskState) : Document :=
  { resource := task.resource
    next := task.next
    ends := if task.next.isNone then some true else none
    catchList := task.catchList
    comment := task.comment }

theorem finish_unsourced (task : TaskState) :
    recordForm.finish { task.unsourced with resource := some task.resource } =
      .ok task.document := by
  obtain ⟨resource, next, catchList, comment⟩ := task
  cases next <;> cases catchList <;> cases comment <;> rfl

theorem ofDocument_document (task : TaskState) : ofDocument task.document = .ok task := by
  obtain ⟨resource, next, catchList, comment⟩ := task
  cases next <;> rfl

theorem decode_ordered (task : TaskState) :
    decode .content (.object (task.ordered.map Json.memberNode) .closed) = .ok task := by
  have hdocument := Record.decode_fills (Origin.content_admits _) task.fills_ordered task.finish_unsourced
  rw [decode, hdocument]
  exact task.ofDocument_document

end TaskState

namespace FailState

/-- The members of a failure in the order of their names. -/
def ordered (failure : FailState) : List (String × Json) :=
  [("Cause", .text failure.cause)] ++ optionalMember "Comment" failure.comment .text ++
    [("Error", .text failure.error)]

theorem fills_ordered (failure : FailState) :
    Fills recordForm.fields 0 failure.ordered {}
      { error := some failure.error
        cause := some failure.cause
        comment := failure.comment.map some } := by
  have hcause : Fills recordForm.fields 0 [("Cause", .text failure.cause)] {}
      { cause := some failure.cause } :=
    Record.fills_required rfl rfl (Decoder.reads_text failure.cause) rfl
  have hcomment : Fills recordForm.fields 0 (optionalMember "Comment" failure.comment .text)
      { cause := some failure.cause }
      { cause := some failure.cause, comment := failure.comment.map some } :=
    Record.fills_optional rfl rfl rfl (fun comment _ => Decoder.reads_text comment)
      (fun _ h => nomatch h) rfl
  exact (hcause.append hcomment).append
    (Record.fills_required rfl rfl (Decoder.reads_text failure.error) rfl)

theorem decode_ordered (failure : FailState) :
    decode .content (.object (failure.ordered.map Json.memberNode) .closed) = .ok failure := by
  apply Record.decode_fills (Origin.content_admits _) failure.fills_ordered
  obtain ⟨error, cause, comment⟩ := failure
  cases comment <;> rfl

end FailState

namespace State

/-- The members of a state in the order of their names, all of which come before its type. -/
def ordered : State → List (String × Json)
  | .task work => work.ordered
  | .succeed comment => optionalMember "Comment" comment .text
  | .fail failure => failure.ordered

theorem perm_ordered (state : State) : state.members.Perm state.ordered := by
  cases state with
  | task work => exact work.perm_ordered
  | succeed comment => exact .refl _
  | fail failure =>
      change (("Error", _) :: ("Cause", _) :: optionalMember _ _ _).Perm (("Cause", _) :: (optionalMember _ _ _ ++ _))
      exact (List.Perm.swap _ _ _).trans (.cons _ (List.perm_append_singleton _ _).symm)

theorem keys_ordered (state : State) :
    ((state.ordered ++ [(typeKey, Json.text state.typeName)]).map Prod.fst).Pairwise (· < ·) := by
  cases state with
  | task work => exact work.keys_ordered
  | succeed comment =>
      have hkeys : (["Comment"] ++ [typeKey]).Pairwise (· < ·) := by decide
      refine hkeys.sublist ?_
      rw [ordered, List.map_append]
      exact keys_optionalMember_sublist.append (List.Sublist.refl _)
  | fail failure =>
      have hkeys : (["Cause"] ++ ["Comment"] ++ ["Error"] ++ [typeKey]).Pairwise (· < ·) := by decide
      refine hkeys.sublist ?_
      simp only [ordered, FailState.ordered, List.map_append]
      exact ((List.Sublist.append (List.Sublist.refl _) keys_optionalMember_sublist).append
        (List.Sublist.refl _)).append (List.Sublist.refl _)

theorem fits_ordered (state : State) : ∀ member ∈ state.ordered, member.2.Fits 3 := by
  cases state with
  | task work => exact work.fits_ordered
  | succeed comment => exact fits_optionalMember fun comment _ => Json.fits_text comment
  | fail failure =>
      intro member hmember
      simp only [ordered, FailState.ordered, List.mem_append, List.mem_singleton] at hmember
      rcases hmember with (rfl | hcomment) | rfl
      · exact Json.fits_text failure.cause
      · exact fits_optionalMember (fun comment _ => Json.fits_text comment) member hcomment
      · exact Json.fits_text failure.error

theorem fits_toJson (state : State) : state.toJson.Fits 4 := by
  apply Json.fits_record
  intro member hmember
  rcases List.mem_cons.mp hmember with rfl | hmember
  · exact Json.fits_text state.typeName
  · exact state.fits_ordered member (state.perm_ordered.mem_iff.mp hmember)

/-- The kind that a state is written with. -/
def kind : State → Kind
  | .task _ => .task
  | .succeed _ => .succeed
  | .fail _ => .fail

theorem decode_typeName (origin : Origin) (state : State) :
    Kind.decode origin (.text (.ok state.typeName)) = .ok state.kind := by
  cases state <;> rfl

theorem decodeContent_ordered (state : State) :
    decodeContent (.object (state.ordered.map Json.memberNode) .closed) state.kind = .ok state := by
  cases state with
  | task work => exact congrArg (Except.map State.task) work.decode_ordered
  | succeed comment =>
      have hcomment : Fills succeedForm.fields 0 (optionalMember "Comment" comment .text) none
          (comment.map some) :=
        Record.fills_optional rfl rfl rfl (fun comment _ => Decoder.reads_text comment)
          (fun _ h => nomatch h) rfl
      have hfinish : succeedForm.finish (comment.map some) = .ok comment := by
        cases comment <;> rfl
      exact congrArg (Except.map State.succeed) (Record.decode_fills (Origin.content_admits _) hcomment hfinish)
  | fail failure => exact congrArg (Except.map State.fail) failure.decode_ordered

/-- The type is split off from the members before it. -/
theorem splitMembers_type {origin : Origin} {name : String} {kind : Kind}
    (hkind : Kind.decode origin (.text (.ok name)) = .ok kind) {members : List (String × Json)}
    (hother : ∀ member ∈ members, member.1 ≠ typeKey)
    (hread : ∀ member ∈ members, member.2.node.toJson origin = .ok member.2) :
    splitMembers origin ((members ++ [(typeKey, Json.text name)]).map Json.memberNode) none =
      .ok (some kind, members.map Json.memberNode) := by
  have htype : splitMembers origin [(.ok typeKey, .text (.ok name))] none = .ok (some kind, []) := by
    have hkey : readKey (.ok typeKey) = .ok typeKey := rfl
    rw [splitMembers, hkey]
    simp only [bind, Except.bind, if_true, Option.isSome_none, Bool.false_eq_true, if_false, hkind]
    rw [splitMembers]
  have hgives : List.Forall₂ (Json.Gives origin) (members.map Json.memberNode) members :=
    Json.gives_map_node hread
  rw [List.map_append, splitMembers_append hgives hother]
  change (splitMembers origin [(.ok typeKey, .text (.ok name))] none).map _ = _
  rw [htype]
  exact congrArg (fun others => Except.ok (some kind, others)) (List.append_nil _)

theorem ne_typeKey (state : State) : ∀ member ∈ state.ordered, member.1 ≠ typeKey := by
  intro member hmember heq
  have hkeys := state.keys_ordered
  rw [List.map_append, List.pairwise_append] at hkeys
  have hlt := hkeys.2.2 member.1 (List.mem_map.mpr ⟨member, hmember, rfl⟩) typeKey List.mem_cons_self
  rw [heq] at hlt
  exact String.lt_irrefl _ hlt

theorem node_toJson (state : State) :
    state.toJson.node =
      .object ((state.ordered ++ [(typeKey, Json.text state.typeName)]).map Json.memberNode)
        .closed :=
  Json.node_record ((state.perm_ordered.cons _).trans (List.perm_append_singleton _ _).symm)
    state.keys_ordered

theorem decode_reads (state : State) : decode.Reads 4 state.toJson state := by
  intro origin hadmits
  obtain ⟨inner, henter, hinner⟩ := hadmits.enter
  have hsplit := splitMembers_type (decode_typeName inner state) state.ne_typeKey
    fun member hmem => (state.fits_ordered member hmem).toJson hinner
  rw [node_toJson, decode_object henter rfl, hsplit]
  exact state.decodeContent_ordered

end State

namespace Machine

/-- The members of a machine in the order of their names. -/
def ordered (machine : Machine) : List (String × Json) :=
  optionalMember "Comment" machine.comment .text ++ [("StartAt", .text machine.startAt)] ++
    [("States", .object (machine.states.map (·.toJson)))] ++
    optionalMember "TimeoutSeconds" machine.timeoutSeconds .ofUInt64 ++
    [("Version", .text machine.version)]

/-- The members of a machine in the order that they are written in. -/
def members (machine : Machine) : List (String × Json) :=
  [("States", .object (machine.states.map (·.toJson))), ("StartAt", .text machine.startAt),
    ("Version", .text machine.version)] ++
    optionalMember "Comment" machine.comment .text ++
    optionalMember "TimeoutSeconds" machine.timeoutSeconds .ofUInt64

theorem perm_ordered (machine : Machine) : machine.members.Perm machine.ordered := by
  rw [members, ordered, List.perm_iff_count]
  intro member
  simp only [List.count_append, List.count_cons, List.count_nil]
  omega

theorem keys_ordered (machine : Machine) :
    (machine.ordered.map Prod.fst).Pairwise (· < ·) := by
  have hkeys : (["Comment"] ++ ["StartAt"] ++ ["States"] ++ ["TimeoutSeconds"] ++
      ["Version"]).Pairwise (· < ·) := by decide
  refine hkeys.sublist ?_
  simp only [ordered, List.map_append]
  exact (((keys_optionalMember_sublist.append (List.Sublist.refl _)).append
    (List.Sublist.refl _)).append keys_optionalMember_sublist).append (List.Sublist.refl _)

theorem fits_states (machine : Machine) :
    (Json.object (machine.states.map (·.toJson))).Fits 5 := by
  apply Json.fits_object
  intro entry hentry
  obtain ⟨written, -, rfl⟩ := List.mem_map.mp hentry
  exact written.2.fits_toJson

theorem fits_toJson (machine : Machine) : machine.toJson.Fits 6 := by
  apply Json.fits_record
  intro member hmember
  have hordered : member ∈ machine.ordered := machine.perm_ordered.mem_iff.mp hmember
  simp only [ordered, List.mem_append, List.mem_singleton] at hordered
  rcases hordered with (((hcomment | rfl) | rfl) | htimeout) | rfl
  · exact fits_optionalMember (fun comment _ => Json.fits_text comment) member hcomment
  · exact Json.fits_text machine.startAt
  · exact machine.fits_states
  · exact fits_optionalMember (fun seconds _ => Json.fits_ofUInt64 seconds) member htimeout
  · exact Json.fits_text machine.version

/-- The draft of a machine before its states are read. -/
def unstated (machine : Machine) : Draft :=
  { startAt := some machine.startAt
    comment := machine.comment.map some }

theorem fills_ordered (machine : Machine) :
    Fills recordForm.fields 5 machine.ordered {}
      { states := some machine.states
        startAt := some machine.startAt
        comment := machine.comment.map some
        version := some machine.version
        timeoutSeconds := machine.timeoutSeconds.map some } := by
  have hcomment : Fills recordForm.fields 5 (optionalMember "Comment" machine.comment .text) {}
      { comment := machine.comment.map some } :=
    Record.fills_optional rfl rfl rfl (fun comment _ => Decoder.reads_text comment)
      (fun _ h => nomatch h) rfl
  have hstart : Fills recordForm.fields 5 [("StartAt", .text machine.startAt)]
      { comment := machine.comment.map some } machine.unstated :=
    Record.fills_required rfl rfl (Decoder.reads_text machine.startAt) rfl
  have hstates : Fills recordForm.fields 5
      [("States", .object (machine.states.map (·.toJson)))] machine.unstated
      { machine.unstated with states := some machine.states } :=
    Record.fills_required rfl rfl (.dict fun entry _ => entry.2.decode_reads) rfl
  have htimeout : Fills recordForm.fields 5
      (optionalMember "TimeoutSeconds" machine.timeoutSeconds .ofUInt64)
      { machine.unstated with states := some machine.states }
      { machine.unstated with
        states := some machine.states
        timeoutSeconds := machine.timeoutSeconds.map some } :=
    Record.fills_optional rfl rfl rfl (fun seconds _ => Decoder.reads_word64 seconds)
      (fun _ h => nomatch h) rfl
  exact (((hcomment.append hstart).append hstates).append htimeout).append
    (Record.fills_defaulted rfl rfl (Decoder.reads_text machine.version) rfl)

theorem decode_reads (machine : Machine) : decode.Reads 6 machine.toJson machine := by
  apply Record.reads_record machine.perm_ordered machine.keys_ordered machine.fills_ordered
  obtain ⟨states, startAt, comment, version, timeoutSeconds⟩ := machine
  cases comment <;> cases timeoutSeconds <;> rfl

theorem ofDecoded_ok {machine : Machine} (hvalid : machine.violations = []) :
    ofDecoded (.ok machine) = .ok machine := by
  rw [ofDecoded, checked, hvalid]

theorem ofJson_toJson {machine : Machine} (hvalid : machine.violations = []) :
    ofJson machine.toJson = .ok machine := by
  rw [ofJson, Decoder.ofJson, machine.decode_reads .value trivial, ofDecoded_ok hvalid]

theorem ofText_canonicalText {machine : Machine} (hvalid : machine.violations = []) :
    ofText machine.canonicalText = .ok machine := by
  have hlevels : Origin.Admits 6 (.text depthLimit) := by
    change 6 ≤ depthLimit
    decide
  rw [ofText, Decoder.ofText, canonicalText, Json.Document.ofText_print machine.fits_toJson.1,
    machine.decode_reads _ hlevels]
  exact ofDecoded_ok hvalid

theorem canonicalText_inj {first second : Machine} (hfirst : first.violations = [])
    (hsecond : second.violations = []) :
    first.canonicalText = second.canonicalText ↔ first = second := by
  constructor
  · intro heq
    have hread := ofText_canonicalText hfirst
    rw [heq, ofText_canonicalText hsecond] at hread
    exact (Except.ok.inj hread).symm
  · exact congrArg canonicalText

/-- A valid machine is read back from its document and from its text. So its text tells it from
every other valid machine, and its hash does unless the texts of the two collide. -/
theorem document_identifies {machine : Machine} (hvalid : machine.violations = []) :
    ofJson machine.toJson = .ok machine ∧
      ofText machine.canonicalText = .ok machine ∧
      machine.contentHash = Sha256.hexDigest machine.canonicalText ∧
      ∀ other : Machine, other.violations = [] →
        (machine.canonicalText = other.canonicalText ↔ machine = other) ∧
          (machine.contentHash = other.contentHash → machine ≠ other →
            machine.canonicalText ≠ other.canonicalText ∧
              Sha256.hexDigest machine.canonicalText = Sha256.hexDigest other.canonicalText) := by
  refine ⟨ofJson_toJson hvalid, ofText_canonicalText hvalid, rfl, fun other hother => ?_⟩
  have htexts := canonicalText_inj hvalid hother
  exact ⟨htexts, fun hhash hne => ⟨fun heq => hne (htexts.mp heq), hhash⟩⟩

/-- A machine of one task, with or without a list of catchers. -/
def lone (catchList : Option (List Catcher)) : Machine :=
  { states := .ofList
      [("début", .task { resource := "r\"\n", next := none, catchList, comment := some "" })]
    startAt := "début"
    comment := none
    version := "2"
    timeoutSeconds := some 0xffffffffffffffff }

theorem document_identifies_lone :
    (lone (some [])).violations = [] ∧ (lone none).violations = [] ∧
      ofText (lone (some [])).canonicalText = .ok (lone (some [])) ∧
      ((lone (some [])).canonicalText = (lone none).canonicalText ↔ lone (some []) = lone none) ∧
      lone (some []) ≠ lone none := by
  have hempty : (lone (some [])).violations = [] := by decide
  have hnone : (lone none).violations = [] := by decide
  obtain ⟨-, htext, -, hothers⟩ := document_identifies hempty
  exact ⟨hempty, hnone, htext, (hothers (lone none) hnone).1, by decide⟩

end Machine

end Workflow
