import Workflow.Proofs.Definition.Paths
import Workflow.Proofs.Executor.Creation
import Workflow.Proofs.Executor.Journal
import Workflow.Proofs.Session.Request
import Workflow.Proofs.Worker.Turn

/-!
# Tasks that are turned away

A task is recorded before it is handed off, so one that is turned away is not lost. Its payload is
dispatched again by the executor that was turned away, or by another one that takes over from its
context, and the task goes into the queue as it would have gone at first. What tells the two apart is
the position in the log, where the call that was turned away has left two lines.
-/

namespace Workflow

/-- A call that hands a task off, if it comes to one. -/
inductive Attempt where
  | dispatch (payload : Json)
  | runTask (resource : String) (input : Json) (report : Except String Json)

namespace Attempt

def action : Attempt → Action Stage Outcome
  | .dispatch payload => Stage.dispatch payload
  | .runTask resource input report => Session.runTask resource input report

/-- The state that the call enters, and its payload there. -/
def target? (record : ExecutionRecord) (machine : Machine) : Attempt → Option (String × Json)
  | .dispatch payload => (record.entrance? machine).map fun name => (name, payload)
  | .runTask _ _ report => do
    let state ← record.state
    let task ← (machine.state? state.name).bind (·.task?)
    let next ← task.successor? report
    return (next, payloadAfter report)

end Attempt

theorem Executor.exported_congr {executor other : Executor}
    (hid : other.executionId = executor.executionId)
    (hheld : other.execution.held = executor.execution.held)
    (hsequence : other.sequence = executor.sequence) (store : DefinitionStore) :
    other.exported store = executor.exported store := by
  have hrenamed : other = { executor with executorId := other.executorId } :=
    Executor.ext_fields hid hheld rfl hsequence
  rw [hrenamed]
  rfl

namespace Executor

/-- The executor after more lines were written. -/
def later (executor : Executor) (lines : UInt64) : Executor :=
  { executor with sequence := executor.sequence + lines }

/-- The task that the executor hands off with the context of its execution. -/
def offer (executor : Executor) (store : DefinitionStore) (resource : String) (payload : Json) :
    QueuedTask :=
  { resource
    input := payload
    context := executor.exported store }

end Executor

namespace Stage

variable {stage ready : Stage} {record : ExecutionRecord} {machine : Machine} {task : TaskState}
  {name : String} {payload : Json}

/-- A stage of the same execution, at which more may have been written to the log. -/
structure Readies (stage ready : Stage) : Prop where
  held : ready.executor.execution.held = stage.executor.execution.held
  site : ready.site = { stage.site with log := ready.site.log }

/-- A call that enters a task arrives there, from where its own lines are written. -/
theorem action_of_target (h : stage.Stands record machine) {attempt : Attempt}
    (htarget : attempt.target? record machine = some (name, payload))
    (htask : machine.state? name = some (.task task)) :
    ∃ ready, stage.Readies ready ∧ ready.Stands record machine ∧ ∀ rejection,
      attempt.action (stage.facing rejection) =
        Action.leave ((Progress.pending name task.resource payload).answer rejection)
          ((ready.facing rejection).arrived "" name record (.pending name task.resource payload)) := by
  have henter : machine.enter? name payload = some (.pending name task.resource payload) := by
    unfold Machine.enter?
    rw [htask]
    rfl
  cases attempt with
  | dispatch input =>
      obtain ⟨entered, hentrance, heq⟩ := Option.map_eq_some_iff.mp htarget
      obtain ⟨rfl, rfl⟩ := Prod.mk.inj heq
      exact ⟨stage, ⟨rfl, rfl⟩, h, fun rejection =>
        dispatch_of_entrance (h.facing rejection) hentrance henter⟩
  | runTask resource input report =>
      obtain ⟨state, hstate, hrest⟩ := Option.bind_eq_some_iff.mp htarget
      obtain ⟨found, hfound, hrest⟩ := Option.bind_eq_some_iff.mp hrest
      obtain ⟨next, hnext, heq⟩ := Option.bind_eq_some_iff.mp hrest
      obtain ⟨rfl, rfl⟩ := Prod.mk.inj (Option.some.inj heq)
      have hcomplete : machine.complete? found report =
          some (.pending next task.resource (payloadAfter report)) :=
        (Machine.complete?_of_successor hnext).trans henter
      refine ⟨stage.logged found.resource state.name (found.reportLine report), ⟨rfl, rfl⟩,
        h.logged _ _ _, fun rejection => ?_⟩
      change Session.runTask resource input report _ = _
      rw [Session.runTask_of_atTask (h.facing rejection) hstate (Machine.state?_of_task? hfound) hcomplete]
      unfold TaskState.landing
      rw [hnext]
      rfl

section Pending

variable {resource : String}

theorem sequence_arrived_pending (stage : Stage) (record : ExecutionRecord) (name resource : String)
    (payload : Json) :
    (stage.arrived "" name record (.pending name resource payload)).executor.sequence =
      match stage.site.rejection with
      | none => stage.executor.sequence + 1
      | some _ => stage.executor.sequence + 1 + 1 := by
  have hjournal := stage.journal_arrived record "" name (.pending name resource payload)
  have hsequence := congrArg (fun journal => journal.logger.sequence) hjournal
  revert hsequence
  cases stage.site.rejection <;> exact id

/-- A stage at which an execution waits at a task that was turned away, where `ready` was about to hand
it off. -/
structure TurnedAway (ready : Stage) (record : ExecutionRecord) (machine : Machine)
    (progress : Progress) (left : Stage) : Prop where
  stands : left.Stands (record.arrived progress) machine
  executionId : left.executor.executionId = ready.executor.executionId
  held : left.executor.execution.held =
    ready.executor.execution.held.map fun _ => record.arrived progress
  sequence : left.executor.sequence = ready.executor.sequence + 1 + 1

theorem turnedAway_arrived (h : ready.Stands record machine) (reason : String) :
    ready.TurnedAway record machine (.pending name resource payload)
      ((ready.facing (some reason)).arrived "" name record (.pending name resource payload)) := by
  have hreaches := reaches_arrived (ready.facing (some reason)) record
    (.pending name resource payload) "" name
  exact ⟨hreaches.stands (h.facing _), hreaches.executionId, hreaches.held,
    sequence_arrived_pending _ record name resource payload⟩

/-- Dispatched again, a task that was turned away goes into the queue as it would have gone from
`ready`, two lines later. -/
theorem TurnedAway.dispatch_eq {again : Stage}
    (h : ready.TurnedAway record machine (.pending name task.resource payload) again)
    (htask : machine.state? name = some (.task task)) (haccepting : again.site.rejection = none) :
    ∃ retried, dispatch payload again = .ok (.suspended name task.resource) retried ∧
      retried.site.queue = again.site.queue.push
        ((((ready.facing none).arrived "" name record
          (.pending name task.resource payload)).executor.later 2).offer again.site.definitions
            task.resource payload) := by
  let progress : Progress := .pending name task.resource payload
  have henter : machine.enter? name payload = some progress := by
    unfold Machine.enter?
    rw [htask]
    rfl
  have hdispatch := dispatch_of_entrance h.stands rfl henter
  have hreaches := reaches_arrived again (record.arrived progress) progress "" name
  have haccepted := reaches_arrived (ready.facing none) record progress "" name
  rw [Progress.answer_of_accepting haccepting] at hdispatch
  refine ⟨_, hdispatch, ?_⟩
  have hcontext : ∀ store,
      (again.arrived "" name (record.arrived progress) progress).executor.exported store =
        (((ready.facing none).arrived "" name record progress).executor.later 2).exported store := by
    apply Executor.exported_congr
    · rw [hreaches.executionId, h.executionId]
      exact haccepted.executionId.symm
    · rw [hreaches.held, h.held, Option.map_map]
      exact haccepted.held.symm
    · rw [sequence_arrived_pending, haccepting, h.sequence]
      change _ = ((ready.facing none).arrived "" name record progress).executor.sequence + 2
      rw [sequence_arrived_pending]
      change ready.executor.sequence + 1 + 1 + 1 = ready.executor.sequence + 1 + 2
      grind
  rw [queue_arrived, haccepting, hcontext]
  rfl

theorem TurnedAway.renamed {progress : Progress} {left : Stage}
    (h : ready.TurnedAway record machine progress left) (executorId : String) (issued : Nat) :
    ready.TurnedAway record machine progress
      { executor := { left.executor with executorId }, site := { left.site with issued } } :=
  ⟨h.stands.elsewhere rfl (fun _ _ _ hfind => hfind) rfl, h.executionId, h.held, h.sequence⟩

theorem TurnedAway.facing {progress : Progress} {left : Stage}
    (h : ready.TurnedAway record machine progress left) (rejection : Option String) :
    ready.TurnedAway record machine progress (left.facing rejection) :=
  ⟨h.stands.facing rejection, h.executionId, h.held, h.sequence⟩

/-- The context of an execution can be taken over wherever its hand-offs are accepted. -/
theorem Stands.hydrate_facing {left : Stage} (h : left.Stands record machine)
    (hkept : left.executor.execution.held.isNone = left.site.central) :
    Executor.hydrate (left.executor.exported left.site.definitions) (left.facing none).site =
      .ok { left.executor with executorId := Identifier.spell left.site.issued }
        { (left.facing none).site with issued := left.site.issued + 1 } :=
  Executor.hydrate_exported h.isLocal.announcement h.isLocal.announcement hkept h.defined_of_held

end Pending

/-- A call that comes to a task which is turned away fails with the reason. The queue stays as it was,
and the execution stays at the task with its payload and without a result. Dispatching the payload
again, once tasks are accepted, by the same executor or by one that has taken over from the exported
context, suspends the execution at the task, and puts in the queue what the call itself would have put
there if the task had been accepted, but for the position in the log, which is two lines further. -/
theorem retried_as_accepted (h : stage.Stands record machine)
    (hkept : stage.executor.execution.held.isNone = stage.site.central)
    (hresult : record.result = none) {attempt : Attempt}
    (htarget : attempt.target? record machine = some (name, payload))
    (htask : machine.state? name = some (.task task)) (reason : String) :
    ∃ accepted left : Stage,
      attempt.action (stage.facing none) = .ok (.suspended name task.resource) accepted ∧
      accepted.site.queue = stage.site.queue.push
        (accepted.executor.offer stage.site.definitions task.resource payload) ∧
      attempt.action (stage.facing (some reason)) =
        .error (.component (.dispatchFailed task.resource reason)) left ∧
      left.site.queue = stage.site.queue ∧
      current left = .ok (some { name, data := some payload }, none) left ∧
      (∃ retried, dispatch payload (left.facing none) = .ok (.suspended name task.resource) retried ∧
        retried.site.queue = stage.site.queue.push
          ((accepted.executor.later 2).offer stage.site.definitions task.resource payload)) ∧
      ∃ context hydrated site retried,
        exportContext left = .ok context left ∧
        Executor.hydrate context (left.facing none).site = .ok hydrated site ∧
        dispatch payload { executor := hydrated, site } = .ok (.suspended name task.resource) retried ∧
        retried.site.queue = stage.site.queue.push
          ((accepted.executor.later 2).offer stage.site.definitions task.resource payload) := by
  obtain ⟨ready, hready, hstands, haction⟩ := action_of_target h htarget htask
  let progress : Progress := .pending name task.resource payload
  let accepted := (ready.facing none).arrived "" name record progress
  let left := (ready.facing (some reason)).arrived "" name record progress
  have hdefinitions : ready.site.definitions = stage.site.definitions := by rw [hready.site]
  have hqueue : ready.site.queue = stage.site.queue := by rw [hready.site]
  have haccepted : accepted.site.queue = stage.site.queue.push
      (accepted.executor.offer stage.site.definitions task.resource payload) := by
    have hpushed := queue_arrived (ready.facing none) record progress "" name
    rw [← hqueue, ← hdefinitions]
    exact hpushed
  have hleft : left.site.queue = stage.site.queue := by
    rw [← hqueue]
    exact queue_arrived (ready.facing (some reason)) record progress "" name
  have hreaches := reaches_arrived (ready.facing (some reason)) record progress "" name
  have hsite : left.site.definitions = stage.site.definitions := by
    rw [hreaches.site]
    exact hdefinitions
  have hheld : left.executor.execution.held.isNone = left.site.central := by
    rw [hreaches.held, Option.isNone_map, hreaches.site]
    change ready.executor.execution.held.isNone = ready.site.central
    rw [hready.held, hkept, hready.site]
  have hturned : ready.TurnedAway record machine progress left := turnedAway_arrived hstands reason
  have hcurrent := current_of_recorded hturned.stands.recorded
  change current left = .ok (some { name, data := some payload }, record.result) left at hcurrent
  rw [hresult] at hcurrent
  obtain ⟨retried, hretry, hretried⟩ := (hturned.facing none).dispatch_eq htask rfl
  obtain ⟨again, hagain, hqueued⟩ := ((hturned.facing none).renamed
    (Identifier.spell left.site.issued) (left.site.issued + 1)).dispatch_eq htask rfl
  refine ⟨accepted, left, haction none, haccepted, haction (some reason), hleft, hcurrent,
    ⟨retried, hretry, ?_⟩, _, _, _, again, exportContext_apply hturned.stands.isLocal.announcement,
    hturned.stands.hydrate_facing hheld, hagain, ?_⟩
  · rw [hretried]
    change left.site.queue.push (Executor.offer _ left.site.definitions _ _) = _
    rw [hleft, hsite]
  · rw [hqueued]
    change left.site.queue.push (Executor.offer _ left.site.definitions _ _) = _
    rw [hleft, hsite]

/-- An execution of the detour that waits for its first task. -/
def sawing (central : Bool) : Stage :=
  ((Site.fresh central).created .detour).withRecord (.waiting Machine.detour.contentHash "Saw" .null)

theorem stands_sawing (central : Bool) :
    (sawing central).Stands (.waiting Machine.detour.contentHash "Saw" .null) .detour :=
  (Site.stands_created_fresh central .detour).withRecord rfl

theorem isNone_held_sawing (central : Bool) :
    (sawing central).executor.execution.held.isNone = (sawing central).site.central := by
  unfold sawing
  rw [held_withRecord, Option.isNone_map, site_withRecord, Site.isNone_held_created]
  exact (Site.central_created (.fresh central) .detour).symm

/-- The work fails while nothing can be handed off, and its mending is handed off later. -/
theorem retried_as_accepted_sawing :
    ∃ left retried,
      Session.runTask "saw" .null (.error "storm") ((sawing false).facing (some "no route")) =
        .error (.component (.dispatchFailed "glue" "no route")) left ∧
      left.site.queue = (sawing false).site.queue ∧
      current left = .ok (some { name := "Mend", data := some .emptyObject }, none) left ∧
      dispatch .emptyObject (left.facing none) = .ok (.suspended "Mend" "glue") retried ∧
      retried.site.queue.pending.map (·.resource) =
        (sawing false).site.queue.pending.map (·.resource) ++ ["glue"] := by
  have htarget : (Attempt.runTask "saw" .null (.error "storm")).target?
      (.waiting Machine.detour.contentHash "Saw" .null) .detour = some ("Mend", .emptyObject) := rfl
  obtain ⟨_, left, _, _, hrejected, hqueue, hcurrent, ⟨retried, hretry, hretried⟩, _⟩ :=
    retried_as_accepted (stands_sawing false) (isNone_held_sawing false) rfl htarget
      (show Machine.detour.state? "Mend" = some (.task _) from rfl) "no route"
  refine ⟨left, retried, hrejected, hqueue, hcurrent, hretry, ?_⟩
  rw [hretried]
  exact List.map_append

end Stage

end Workflow
