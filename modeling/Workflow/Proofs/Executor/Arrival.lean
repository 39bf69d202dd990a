import Workflow.Proofs.Definition.References
import Workflow.Proofs.Executor.Stage

/-!
# Where a call takes an execution

At a machine whose references lead somewhere, every call that moves an execution takes it to a
`Progress` of the plain meaning. What the call answers and what it leaves behind depend on that
progress alone: a result is recorded, a task is recorded and handed off, and a task that is turned
away stays recorded.
-/

namespace Workflow

/-- The end of an action with an answer, at the state that it leaves. -/
def Action.leave {σ α : Type} (answer : Except ExecutorError α) (state : σ) :
    EStateM.Result ExecutorError σ α :=
  match answer with
  | .ok value => .ok value state
  | .error error => .error error state

theorem Action.stateAfter_leave {σ α : Type} (answer : Except ExecutorError α) (state : σ) :
    stateAfter (leave answer state) = state := by
  cases answer <;> rfl

/-- What a call answers that takes an execution to `progress` while tasks may be turned away. -/
def Progress.answer (progress : Progress) (rejection : Option String) :
    Except ExecutorError Outcome :=
  match progress, rejection with
  | .pending _ resource _, some reason => .error (.component (.dispatchFailed resource reason))
  | progress, _ => .ok progress.outcome

/-- The queue after a task that is pending was handed off with a context, unless tasks are turned
away. -/
def Progress.queued (progress : Progress) (rejection : Option String) (context : Context)
    (queue : Queue) : Queue :=
  match progress, rejection with
  | .pending _ resource input, none => queue.push { resource, input, context }
  | _, _ => queue

/-- The record of an execution that has come to `progress`. -/
def ExecutionRecord.arrived (record : ExecutionRecord) : Progress → ExecutionRecord
  | .pending name _ payload => { record with state := some { name, data := some payload } }
  | .done result => { record with state := none, result := some result }

@[simp]
theorem ExecutionRecord.definitionId_arrived (record : ExecutionRecord) (progress : Progress) :
    (record.arrived progress).definitionId = record.definitionId := by
  cases progress <;> rfl

theorem Progress.answer_of_accepting {rejection : Option String} (h : rejection = none)
    (progress : Progress) : progress.answer rejection = .ok progress.outcome := by
  rw [h]
  cases progress <;> rfl

theorem Progress.mem_pending_queued {progress : Progress} {rejection : Option String}
    {context : Context} {queue : Queue} {task : QueuedTask}
    (h : task ∈ (progress.queued rejection context queue).pending) :
    task ∈ queue.pending ∨ task.context = context := by
  unfold queued at h
  split at h
  · rcases List.mem_append.mp h with hmem | hmem
    · exact .inl hmem
    · rw [List.mem_singleton.mp hmem]
      exact .inr rfl
  · exact .inl h

theorem Progress.pending_prefix_queued (progress : Progress) (rejection : Option String)
    (context : Context) (queue : Queue) :
    queue.pending <+: (progress.queued rejection context queue).pending := by
  unfold queued
  split
  · exact List.prefix_append _ _
  · exact List.prefix_rfl

theorem Progress.pending_of_suspended {progress : Progress} {rejection : Option String}
    {state resource : String} (h : progress.answer rejection = .ok (.suspended state resource)) :
    rejection = none ∧ ∃ payload, progress = .pending state resource payload := by
  cases progress with
  | done result => cases h
  | pending name other payload =>
      cases rejection with
      | some reason => cases h
      | none =>
          cases h
          exact ⟨rfl, payload, rfl⟩

/-- The state that the next call enters, if the execution has no result yet. -/
def ExecutionRecord.entrance? (record : ExecutionRecord) (machine : Machine) : Option String :=
  match record.state, record.result with
  | some state, _ => some state.name
  | none, some _ => none
  | none, none => some machine.startAt

namespace Site

variable {site : Site}

theorem handOff_of_accepting (h : site.rejection = none) (task : QueuedTask) :
    site.handOff task = .ok { site with queue := site.queue.push task } := by
  unfold handOff
  split
  · rename_i hreason
    cases h.symm.trans hreason
  · rfl

theorem handOff_of_rejecting {reason : String} (h : site.rejection = some reason)
    (task : QueuedTask) : site.handOff task = .error (.dispatchFailed task.resource reason) := by
  unfold handOff
  split
  · rename_i hreason
    rw [Option.some.inj (h.symm.trans hreason)]
  · rename_i hnone
    cases h.symm.trans hnone

end Site

namespace TaskState

/-- The line that is written when the report of a task is recorded. -/
def reportLine (task : TaskState) : Except String Json → String
  | .ok _ =>
    match task.next with
    | some next => "succeeded, next " ++ next
    | none => "succeeded"
  | .error code =>
    match task.catcherFor? code with
    | some catcher => s!"failed with {code}, caught, next {catcher.next}"
    | none => "failed with " ++ code

/-- The resource and state at which a result is logged that comes of the report. A state that is
entered has no resource. -/
def landing (task : TaskState) (name : String) (report : Except String Json) : String × String :=
  match task.successor? report with
  | some next => ("", next)
  | none => (task.resource, name)

end TaskState

namespace Stage

/-- The stage after its execution has come to `progress`. A result is logged at the given resource
and state. -/
def arrived (stage : Stage) (resource name : String) (record : ExecutionRecord)
    (progress : Progress) : Stage :=
  match progress with
  | .done result =>
    (stage.logged resource name ("finished " ++ result.status.name)).withRecord
      (record.arrived progress)
  | .pending name resource payload =>
    let ready := (stage.withRecord (record.arrived progress)).logged resource name "dispatching"
    match stage.site.rejection with
    | none =>
      ready.queued
        { resource
          input := payload
          context := ready.executor.exported ready.site.definitions }
    | some reason =>
      ready.logged resource name
        ("dispatch failed: " ++ (ComponentError.dispatchFailed resource reason).message)

/-- The stage after a call that has taken its execution from `record` to `progress`, as far as it is
the same for every call. -/
structure Reaches (before : Stage) (record : ExecutionRecord) (progress : Progress)
    (after : Stage) : Prop where
  site : after.site =
    { before.site with
      table := (before.withRecord (record.arrived progress)).site.table
      log := after.site.log
      queue := after.site.queue }
  execution : after.executor.execution =
    (before.withRecord (record.arrived progress)).executor.execution
  executorId : after.executor.executorId = before.executor.executorId
  queue : after.site.queue =
    progress.queued before.site.rejection (after.executor.exported before.site.definitions)
      before.site.queue

variable {stage : Stage} {record other : ExecutionRecord} {machine : Machine} {progress : Progress}

theorem isLocal_withRecord (h : stage.site.IsLocal) (record : ExecutionRecord) :
    (stage.withRecord record).site.IsLocal := by
  rw [site_withRecord]
  exact ⟨h.front, h.announcement⟩

/-- Arriving is a change of the record, lines of the log and perhaps one more task. -/
theorem arrived_of_steps (holds : Stage → Prop) (resource name : String)
    (hrecord : holds (stage.withRecord (record.arrived progress)))
    (hlogged : ∀ stage resource state message, holds stage →
      holds (stage.logged resource state message))
    (hqueued : ∀ stage task, holds stage → holds (stage.queued task)) :
    holds (stage.arrived resource name record progress) := by
  unfold arrived
  split
  · rw [← logged_withRecord]
    exact hlogged _ _ _ _ hrecord
  · simp only
    split
    · exact hqueued _ _ (hlogged _ _ _ _ hrecord)
    · exact hlogged _ _ _ _ (hlogged _ _ _ _ hrecord)

section Frame

variable (stage record progress) (resource name : String)

theorem site_arrived :
    (stage.arrived resource name record progress).site =
      { stage.site with
        table := (stage.withRecord (record.arrived progress)).site.table
        log := (stage.arrived resource name record progress).site.log
        queue := (stage.arrived resource name record progress).site.queue } := by
  let holds (after : Stage) : Prop :=
    after.site = { stage.site with
      table := (stage.withRecord (record.arrived progress)).site.table
      log := after.site.log
      queue := after.site.queue }
  have hrecord : holds (stage.withRecord (record.arrived progress)) := by
    change _ = _
    rw [site_withRecord]
  have hlogged : ∀ after resource state message, holds after →
      holds (after.logged resource state message) := by
    intro after resource state message h
    calc (after.logged resource state message).site
      _ = { after.site with log := (after.logged resource state message).site.log } := rfl
      _ = _ := by rw [show after.site = _ from h]; rfl
  have hqueued : ∀ after task, holds after → holds (after.queued task) := by
    intro after task h
    calc (after.queued task).site
      _ = { after.site with queue := (after.queued task).site.queue } := rfl
      _ = _ := by rw [show after.site = _ from h]; rfl
  exact arrived_of_steps holds resource name hrecord hlogged hqueued

theorem execution_arrived :
    (stage.arrived resource name record progress).executor.execution =
      (stage.withRecord (record.arrived progress)).executor.execution :=
  arrived_of_steps (·.executor.execution = (stage.withRecord _).executor.execution) resource name
    rfl (fun _ _ _ _ h => h) fun _ _ h => h

theorem executorId_arrived :
    (stage.arrived resource name record progress).executor.executorId =
      stage.executor.executorId :=
  arrived_of_steps (·.executor.executorId = stage.executor.executorId) resource name
    (executorId_withRecord stage _) (fun _ _ _ _ h => h) fun _ _ h => h

/-- A task that is not turned away is queued with the context of the execution at that task. -/
theorem queue_arrived :
    (stage.arrived resource name record progress).site.queue =
      progress.queued stage.site.rejection
        ((stage.arrived resource name record progress).executor.exported stage.site.definitions)
        stage.site.queue := by
  have hsite := site_withRecord stage (record.arrived progress)
  unfold arrived
  cases progress with
  | done result =>
      simp only
      rw [site_withRecord]
      rfl
  | pending state taskResource payload =>
      cases hrejection : stage.site.rejection with
      | some reason =>
          simp only
          change (stage.withRecord _).site.queue = _
          rw [hsite]
          rfl
      | none =>
          simp only
          change (stage.withRecord _).site.queue.push
            { resource := taskResource
              input := payload
              context := Executor.exported _ (stage.withRecord _).site.definitions } = _
          rw [hsite]
          rfl

end Frame

theorem Stands.withRecord (h : stage.Stands record machine)
    (hid : other.definitionId = record.definitionId) :
    (stage.withRecord other).Stands other machine := by
  obtain ⟨id, hrecord, hfind⟩ := h.follows
  refine ⟨isLocal_withRecord h.isLocal other, record_withRecord stage other,
    id, hid.trans hrecord, ?_⟩
  rw [site_withRecord]
  exact hfind

theorem Stands.logged (h : stage.Stands record machine) (resource state message : String) :
    (stage.logged resource state message).Stands record machine :=
  ⟨⟨h.isLocal.front, h.isLocal.announcement⟩, h.recorded, h.follows⟩

theorem arrived_withRecord (first : ExecutionRecord) (resource name : String)
    (h : other.arrived progress = record.arrived progress) :
    (stage.withRecord first).arrived resource name other progress =
      stage.arrived resource name record progress := by
  cases progress with
  | done result =>
      unfold arrived
      simp only
      rw [logged_withRecord, withRecord_withRecord, h]
  | pending state taskResource payload =>
      have hrejection : (stage.withRecord first).site.rejection = stage.site.rejection := by
        rw [site_withRecord]
      unfold arrived
      simp only
      rw [withRecord_withRecord, h, hrejection]

theorem reaches_arrived (stage : Stage) (record : ExecutionRecord) (progress : Progress)
    (resource name : String) :
    stage.Reaches record progress (stage.arrived resource name record progress) :=
  { site := site_arrived stage record progress resource name
    execution := execution_arrived stage record progress resource name
    executorId := executorId_arrived stage record progress resource name
    queue := queue_arrived stage record progress resource name }

namespace Reaches

variable {after : Stage}

theorem of_logged {resource state message : String}
    (h : (stage.logged resource state message).Reaches record progress after) :
    stage.Reaches record progress after := by
  refine ⟨?_, ?_, h.executorId, h.queue⟩
  · rw [h.site, ← logged_withRecord]
    rfl
  · rw [h.execution, ← logged_withRecord]
    rfl

theorem handle_record (h : stage.Reaches record progress after) :
    after.handle.record = .ok (record.arrived progress) := by
  have hrecord := record_withRecord stage (record.arrived progress)
  unfold handle Handle.record at hrecord ⊢
  rw [h.site, h.execution]
  exact hrecord

theorem stands (h : stage.Reaches record progress after) (hstands : stage.Stands record machine) :
    after.Stands (record.arrived progress) machine := by
  obtain ⟨id, hrecord, hfind⟩ := hstands.follows
  refine ⟨?_, h.handle_record, id, (record.definitionId_arrived progress).trans hrecord, ?_⟩
  · rw [h.site]
    exact ⟨hstands.isLocal.front, hstands.isLocal.announcement⟩
  · rw [h.site]
    exact hfind

theorem executionId (h : stage.Reaches record progress after) :
    after.executor.executionId = stage.executor.executionId := by
  rw [Executor.executionId, h.execution]
  exact executionId_withRecord stage _

theorem held (h : stage.Reaches record progress after) :
    after.executor.execution.held =
      stage.executor.execution.held.map fun _ => record.arrived progress := by
  rw [h.execution, held_withRecord]

theorem table (h : stage.Reaches record progress after) :
    after.site.table =
      if stage.executor.execution.held.isSome then stage.site.table
      else stage.site.table.insert stage.executor.executionId (record.arrived progress) := by
  rw [h.site, table_withRecord]

end Reaches

end Stage

end Workflow
