import Workflow.Proofs.Session.Twins

/-!
# Carried and tabled executions are observed alike

Call by call, what is answered where executions are carried in their contexts is answered where they
are kept in the table, if executions are handed over linearly.
-/

namespace Workflow

/-- Two replies that are the same, or two contexts of which the second lacks the execution. -/
def Reply.Agrees : Reply → Reply → Prop
  | .context held, .context tabled => held.AgreesOutside tabled
  | first, second => first = second

def Answer.Agrees : Answer → Answer → Prop
  | some (.ok first), some (.ok second) => first.Agrees second
  | first, second => first = second

theorem Answer.agrees_map {α : Type} (answer : Except ExecutorError α) {reply : α → Reply}
    (hreply : ∀ value, (reply value).Agrees (reply value)) :
    Answer.Agrees (some (answer.map reply)) (some (answer.map reply)) := by
  cases answer with
  | ok value => exact hreply value
  | error error => rfl

theorem Answer.Agrees.eq_or_contexts {first second : Answer} (h : first.Agrees second) :
    first = second ∨ ∃ held tabled,
      first = some (.ok (.context held)) ∧ second = some (.ok (.context tabled)) := by
  unfold Agrees at h
  split at h
  · unfold Reply.Agrees at h
    split at h
    · exact .inr ⟨_, _, rfl, rfl⟩
    · rw [h]
      exact .inl rfl
  · exact .inl h

namespace Session

/-- What both sides answer to a call, and where it leaves them. -/
def StepsAlike (recent : Recent) (left right : Session) (command : Command) : Prop :=
  Answer.Agrees (left.step command).1 (right.step command).1 ∧
    Twins (left.recentAfter recent (left.step command).1 command) (left.step command).2
      (right.step command).2

variable {recent : Recent} {left right : Session} {slot : Nat} {executor : Executor}

theorem Twins.getElem?_executors (h : Twins recent left right)
    (hslot : left.executors[slot]? = some executor) :
    right.executors[slot]? = some executor.tabled := by
  rw [h.executors, List.getElem?_map, hslot, Option.map_some]

theorem Twins.absent (h : Twins recent left right) (hslot : left.executors[slot]? = none) :
    right.executors[slot]? = none := by
  rw [h.executors, List.getElem?_map, hslot, Option.map_none]

theorem Twins.superseding (h : Twins recent left right)
    (hslot : left.executors[slot]? = some executor) {answer : Answer}
    (hanswer : ∀ state resource, answer ≠ some (.ok (.outcome (.suspended state resource)))) :
    Twins (left.superseded recent slot answer) left right := by
  refine ⟨h.sound, h.carried, h.site, h.executors, h.exports, h.queue, h.newest, ?_⟩
  intro source id hmem
  rcases mem_superseded hslot hmem with ⟨hrecent, _⟩ | ⟨⟨state, resource, hsuspended⟩, _⟩
  · exact h.recent source id hrecent
  · exact absurd hsuspended (hanswer state resource)

/-- The execution of a permitted call: its record is held on the one side and in the table on the
other, and both sides stand at it. -/
theorem Twins.stands_called (h : Twins recent left right) (hnewest : left.IsNewest slot)
    (hslot : left.executors[slot]? = some executor) :
    ∃ record source machine, left.Follows executor.executionId record source machine ∧
      executor.execution.held = some record ∧ machine.violations = [] ∧
      (left.stage executor).Stands record machine ∧
      (right.stage executor.tabled).Stands record machine := by
  have hcarries := h.sound.executors executor (List.mem_of_getElem? hslot)
  obtain ⟨record, source, machine, hfollows, hstands, hvalid⟩ := hcarries.stands h.sound
  have hheld := h.held_of_follows hcarries hstands
  have hrecorded := h.newest slot executor record hnewest hslot hheld
  exact ⟨record, source, machine, hfollows, hheld, hvalid, hstands, h.stands hrecorded hstands⟩

theorem Twins.journal_eq (h : Twins recent left right) (executor : Executor) :
    (right.stage executor.tabled).journal = (left.stage executor).journal := by
  have hlog : right.site.log = left.site.log := by rw [h.site]
  change { logger := executor.tabled.logger, lines := right.site.log : Journal } = _
  rw [hlog]
  rfl

theorem Twins.rejection_eq (h : Twins recent left right) :
    right.site.rejection = left.site.rejection := by
  rw [h.site]

theorem stepsAlike_moving {action : Action Stage Outcome} (h : Twins recent left right)
    (hnewest : left.IsNewest slot)
    (hmoves : ∀ record machine, record.IsSound machine → machine.violations = [] →
      Stage.Moves action record machine) :
    Answer.Agrees (left.call slot action .outcome).1 (right.call slot action .outcome).1 ∧
      Twins (left.superseded recent slot (left.call slot action .outcome).1)
        (left.call slot action .outcome).2 (right.call slot action .outcome).2 := by
  cases hslot : left.executors[slot]? with
  | none =>
      rw [call_of_absent hslot, call_of_absent (h.absent hslot)]
      refine ⟨rfl, ?_⟩
      unfold superseded
      simp only [getElem?_ids_of_absent hslot]
      exact h
  | some executor =>
      have hother := h.getElem?_executors hslot
      obtain ⟨record, source, machine, hfollows, hheld, hvalid, hleft, hright⟩ :=
        h.stands_called hnewest hslot
      cases hmoves record machine hfollows.sound hvalid with
      | stays answer hanswer hmiss hstays =>
          rw [call_of_leave hslot (hstays _ hleft), call_of_leave hother (hstays _ hright),
            put_stage hslot, put_stage hother]
          refine ⟨Answer.agrees_map answer fun _ => rfl, h.superseding hslot ?_⟩
          intro state resource heq
          cases answer with
          | error error => cases heq
          | ok outcome =>
              cases heq
              exact hanswer state resource rfl
      | arrives progress write hresult hat harrives =>
          obtain ⟨after, haction, hreaches, hjournal⟩ := harrives _ hleft
          obtain ⟨after', haction', hreaches', hjournal'⟩ := harrives _ hright
          have hrejection : (right.stage executor.tabled).site.rejection =
              (left.stage executor).site.rejection := h.rejection_eq
          rw [hrejection] at haction' hjournal'
          rw [call_of_leave hslot haction, call_of_leave hother haction']
          refine ⟨Answer.agrees_map _ fun _ => rfl, ?_⟩
          refine h.put hfollows hresult hat ⟨hnewest, hslot, hheld, hreaches, hreaches', ?_⟩
          rw [hjournal', hjournal, h.journal_eq executor]

theorem stepsAlike_current (h : Twins recent left right) (hnewest : left.IsNewest slot) :
    StepsAlike recent left right (.current slot) := by
  change Answer.Agrees (left.call slot Stage.current _).1 (right.call slot Stage.current _).1 ∧
    Twins recent (left.call slot Stage.current _).2 (right.call slot Stage.current _).2
  cases hslot : left.executors[slot]? with
  | none =>
      rw [call_of_absent hslot, call_of_absent (h.absent hslot)]
      exact ⟨rfl, h⟩
  | some executor =>
      have hother := h.getElem?_executors hslot
      obtain ⟨record, _, _, _, _, _, hleft, hright⟩ := h.stands_called hnewest hslot
      have hcurrent : ∀ {stage : Stage} {machine}, stage.Stands record machine →
          Stage.current stage = Action.leave (.ok (record.state, record.result)) stage :=
        fun hstands => Stage.current_of_recorded hstands.recorded
      rw [call_of_leave hslot (hcurrent hleft), call_of_leave hother (hcurrent hright),
        put_stage hslot, put_stage hother]
      exact ⟨rfl, h⟩

theorem stepsAlike_definition (h : Twins recent left right) (hnewest : left.IsNewest slot) :
    StepsAlike recent left right (.definition slot) := by
  change Answer.Agrees (left.call slot Stage.definition _).1 (right.call slot Stage.definition _).1 ∧
    Twins recent (left.call slot Stage.definition _).2 (right.call slot Stage.definition _).2
  cases hslot : left.executors[slot]? with
  | none =>
      rw [call_of_absent hslot, call_of_absent (h.absent hslot)]
      exact ⟨rfl, h⟩
  | some executor =>
      have hother := h.getElem?_executors hslot
      obtain ⟨record, _, machine, _, _, _, hleft, hright⟩ := h.stands_called hnewest hslot
      have hdefinition : ∀ {stage : Stage}, stage.Stands record machine →
          Stage.definition stage = Action.leave (.ok machine) stage :=
        fun hstands => Stage.definition_of_stands hstands
      rw [call_of_leave hslot (hdefinition hleft), call_of_leave hother (hdefinition hright),
        put_stage hslot, put_stage hother]
      exact ⟨rfl, h⟩

theorem Twins.isLocal (h : Twins recent left right) : right.site.IsLocal := by
  have hlocal := h.sound.isLocal
  refine ⟨?_, ?_⟩
  · rw [h.site]
    exact hlocal.front
  · rw [h.site]
    exact hlocal.announcement

theorem stepsAlike_exportContext (h : Twins recent left right) (hnewest : left.IsNewest slot) :
    StepsAlike recent left right (.exportContext slot) := by
  unfold StepsAlike
  simp only [step, exportContext, recentAfter]
  cases hslot : left.executors[slot]? with
  | none =>
      simp only [h.absent hslot, getElem?_ids_of_absent hslot]
      exact ⟨rfl, h⟩
  | some executor =>
      obtain ⟨record, _, _, _, hheld, _⟩ := h.stands_called hnewest hslot
      have hleft := executor.context_eq_ok h.sound.isLocal.announcement
      have hright := executor.tabled.context_eq_ok h.isLocal.announcement
      have hdefinitions : right.site.definitions = .plain homeShelf := by
        rw [h.site]
        exact h.sound.definitions
      rw [h.sound.definitions] at hleft
      rw [hdefinitions] at hright
      simp only [h.getElem?_executors hslot, getElem?_ids hslot, hleft, hright]
      exact ⟨Context.Twins.agreesOutside ⟨executor, rfl, rfl⟩, h.exporting hnewest hslot hheld⟩

theorem stepsAlike_hydrate (h : Twins recent left right) {source : Source} {id : String}
    (hrecent : (source, id) ∈ recent) : StepsAlike recent left right (.hydrate source) := by
  obtain ⟨executor, record, hoffers, _⟩ := h.recent source id hrecent
  have hdefinitions : right.site.definitions = .plain homeShelf := by
    rw [h.site]
    exact h.sound.definitions
  have hcentral : executor.tabled.execution.held.isNone = right.site.central := by
    rw [h.site]
    rfl
  have hissued : right.site.issued = left.site.issued := by rw [h.site]
  have hright := hydrate_plain hdefinitions hcentral fun _ hheld => nomatch hheld
  rw [hissued] at hright
  unfold StepsAlike
  simp only [step, recentAfter, hoffers.left, hoffers.right, h.sound.hydrate_apply hoffers.carries,
    hright]
  exact ⟨rfl, h.given hoffers _ _⟩

theorem stepsAlike_create (h : Twins recent left right) {machine : Machine}
    (hvalid : machine.violations = [])
    (hfresh : Identifier.spell left.site.issued ∉ left.ids) :
    StepsAlike recent left right (.create machine) := by
  have hissued : right.site.issued = left.site.issued := by rw [h.site]
  unfold StepsAlike
  simp only [step, recentAfter, Site.create_apply h.sound.isLocal, Site.create_apply h.isLocal]
  refine ⟨?_, h.opened hvalid hfresh⟩
  rw [Site.executionId_created, Site.executionId_created, Site.executorId_created,
    Site.executorId_created, hissued]
  rfl

theorem stepsAlike_step (h : Twins recent left right) {command : Command}
    (hpermits : left.Permits recent command) : StepsAlike recent left right command := by
  cases command with
  | create machine => exact stepsAlike_create h hpermits.1 hpermits.2
  | dispatch slot input =>
      exact stepsAlike_moving h hpermits fun _ _ hsound hvalid =>
        Stage.moves_dispatch hsound hvalid input
  | runTask slot resource input report =>
      exact stepsAlike_moving h hpermits fun _ _ hsound hvalid =>
        moves_runTask hsound hvalid resource input report
  | exportContext slot => exact stepsAlike_exportContext h hpermits
  | hydrate source =>
      obtain ⟨id, hrecent⟩ := hpermits
      exact stepsAlike_hydrate h hrecent
  | current slot => exact stepsAlike_current h hpermits
  | definition slot => exact stepsAlike_definition h hpermits
  | reject rejection => exact ⟨rfl, h.rejecting rejection⟩

theorem twins_start : Twins [] (start false) (start true) :=
  { sound := sound_start false
    carried := rfl
    site := rfl
    executors := rfl
    exports := .nil
    queue := .nil
    newest := fun _ _ _ _ hslot => nomatch hslot
    recent := fun _ _ hmem => absurd hmem List.not_mem_nil }

theorem run_alike (h : Twins recent left right) {commands : List Command}
    (hlinear : left.IsLinear recent commands) :
    List.Forall₂ Answer.Agrees (left.run commands).1 (right.run commands).1 ∧
      ∃ last, Twins last (left.run commands).2 (right.run commands).2 := by
  induction commands generalizing recent left right with
  | nil => exact ⟨.nil, recent, h⟩
  | cons command rest ih =>
      -- The discipline is judged at the carried side, and the answers agree, so it moves on alike.
      obtain ⟨hanswer, hnext⟩ := stepsAlike_step h hlinear.1
      obtain ⟨hanswers, hlast⟩ := ih hnext hlinear.2
      exact ⟨.cons hanswer hanswers, hlast⟩

section Discipline

theorem Twins.ids_eq (h : Twins recent left right) : right.ids = left.ids := by
  unfold ids
  rw [h.executors, List.map_map]
  rfl

theorem Twins.permits_iff (h : Twins recent left right) (command : Command) :
    right.Permits recent command ↔ left.Permits recent command := by
  have hissued : right.site.issued = left.site.issued := by rw [h.site]
  cases command <;> simp only [Permits, IsNewest, h.ids_eq, hissued]

theorem Twins.recentAfter_eq (h : Twins recent left right) {first second : Answer}
    (hanswer : first.Agrees second) (command : Command) :
    right.recentAfter recent second command = left.recentAfter recent first command := by
  have hsuperseded : ∀ slot,
      right.superseded recent slot second = left.superseded recent slot first := by
    intro slot
    unfold superseded
    rw [h.ids_eq, h.queue.length_eq]
    rcases hanswer.eq_or_contexts with rfl | ⟨held, tabled, rfl, rfl⟩
    · rfl
    · rfl
  unfold recentAfter
  cases command with
  | dispatch slot input => exact hsuperseded slot
  | runTask slot resource input report => exact hsuperseded slot
  | exportContext slot =>
      simp only
      rw [h.ids_eq, h.exports.length_eq]
  | _ => rfl

theorem Twins.isLinear_iff (h : Twins recent left right) (commands : List Command) :
    right.IsLinear recent commands ↔ left.IsLinear recent commands := by
  induction commands generalizing recent left right with
  | nil => exact Iff.rfl
  | cons command rest ih =>
      unfold IsLinear
      rw [h.permits_iff command]
      apply and_congr_right
      intro hpermits
      obtain ⟨hanswer, hnext⟩ := stepsAlike_step h hpermits
      rw [h.recentAfter_eq hanswer]
      exact ih hnext

end Discipline

/-- The work that is queued, without its contexts. -/
def work (session : Session) : List (String × Json) :=
  session.site.queue.pending.map fun task => (task.resource, task.input)

theorem Twins.work_eq (h : Twins recent left right) : left.work = right.work := by
  have hqueue := h.queue
  unfold work
  generalize left.site.queue.pending = first at hqueue
  generalize right.site.queue.pending = second at hqueue
  induction hqueue with
  | nil => rfl
  | cons htask _ ih => rw [List.map_cons, List.map_cons, ih, htask.resource, htask.input]

/-- Whether executions are carried in their contexts or kept in a table makes no difference to a
caller who hands them over linearly. Every call answers the same, the same work is queued and the
same lines are logged; contexts differ in the entries of the execution at the most, of which there
are none where executions are kept in a table. -/
theorem run_carried_agrees_run_tabled (central : Bool) {commands : List Command}
    (hlinear : (start central).IsLinear [] commands) :
    List.Forall₂ Answer.Agrees ((start false).run commands).1 ((start true).run commands).1 ∧
      ((start false).run commands).2.work = ((start true).run commands).2.work ∧
      ((start false).run commands).2.site.log = ((start true).run commands).2.site.log ∧
      List.Forall₂ Context.AgreesOutside
        (((start false).run commands).2.site.queue.pending.map (·.context))
        (((start true).run commands).2.site.queue.pending.map (·.context)) := by
  have hleft : (start false).IsLinear [] commands := by
    cases central with
    | false => exact hlinear
    | true => exact (twins_start.isLinear_iff commands).mp hlinear
  obtain ⟨hanswers, recent, hlast⟩ := run_alike twins_start hleft
  refine ⟨hanswers, hlast.work_eq, ?_, ?_⟩
  · rw [hlast.site]
  · rw [List.forall₂_map_left_iff, List.forall₂_map_right_iff]
    exact hlast.queue.imp fun _ _ htask => htask.context.agreesOutside

/-- The errand is turned away once, dispatched again, and its task is run by whoever takes over. -/
def errandHandedOver : List Command :=
  [.create .errand, .reject (some "full"), .dispatch 0 .null, .reject none, .dispatch 0 .null,
    .hydrate (.queued 0), .runTask 1 "courier" .null (.error "storm"), .exportContext 1,
    .hydrate (.exported 0), .current 2]

theorem run_carried_agrees_run_tabled_errand :
    (start true).IsLinear [] errandHandedOver ∧
      List.Forall₂ Answer.Agrees ((start false).run errandHandedOver).1
        ((start true).run errandHandedOver).1 := by
  have hlinear : (start true).IsLinear [] errandHandedOver := by decide +kernel
  exact ⟨hlinear, (run_carried_agrees_run_tabled true hlinear).1⟩

end Session

end Workflow
