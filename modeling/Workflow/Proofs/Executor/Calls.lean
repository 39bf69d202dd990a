import Workflow.Proofs.Executor.Arrival

/-!
# What a call comes to

Each call of an executor whose execution follows a machine, as an answer and an arrival.
-/

namespace Workflow.Stage

variable {stage : Stage} {record : ExecutionRecord} {machine : Machine} {progress : Progress}

theorem log_apply (stage : Stage) (resource state message : String) :
    log resource state message stage = .ok () (stage.logged resource state message) :=
  rfl

theorem finish_of_recorded (h : stage.handle.record = .ok record) (resource name : String)
    (result : ExecutionResult) :
    finish resource name result stage =
      Action.leave (Progress.answer (.done result) stage.site.rejection)
        (stage.arrived resource name record (.done result)) := by
  have hlogged : (stage.logged resource name ("finished " ++ result.status.name)).handle.record =
      .ok record := h
  unfold finish
  rw [Action.bind_of_ok (log_apply stage resource name _),
    Action.bind_of_ok (setResult_of_recorded hlogged result)]
  rfl

theorem handOff_of_recorded (hlocal : stage.site.IsLocal) (h : stage.handle.record = .ok record)
    {state : ExecutionState} (hstate : record.state = some state) (task : TaskState)
    (input : Json) :
    handOff state.name task input stage =
      Action.leave (Progress.answer (.pending state.name task.resource input) stage.site.rejection)
        (stage.arrived "" state.name record (.pending state.name task.resource input)) := by
  let ready := (stage.withRecord { record with state := some { state with data := some input } }).logged
    task.resource state.name "dispatching"
  have hcontext : Action.ofContext (ready.executor.context ready.site) ready =
      .ok (ready.executor.exported ready.site.definitions) ready := by
    have hexport : ready.executor.context ready.site = .ok (ready.executor.exported _) :=
      ready.executor.context_eq_ok (isLocal_withRecord hlocal _).announcement
    rw [hexport]
    rfl
  have hrejection : ready.site.rejection = stage.site.rejection := by
    change (stage.withRecord _).site.rejection = _
    rw [site_withRecord]
  unfold handOff
  rw [Action.bind_of_ok (updateData_of_recorded h hstate input), Action.bind_of_ok (log_apply _ _ _ _),
    Action.bind_of_ok (Action.get_apply ready), Action.bind_of_ok hcontext]
  cases hreject : stage.site.rejection with
  | none =>
      have haccepted := Site.handOff_of_accepting (hrejection.trans hreject)
      simp only [haccepted]
      rw [arrived, hreject]
      rfl
  | some reason =>
      have hrejected := Site.handOff_of_rejecting (hrejection.trans hreject)
      simp only [hrejected]
      rw [arrived, hreject]
      rfl

theorem enter_of_recorded (hlocal : stage.site.IsLocal) (h : stage.handle.record = .ok record)
    {state : ExecutionState} (hstate : record.state = some state) {input : Json}
    (hprogress : machine.enter? state.name input = some progress) :
    enter machine state.name input stage =
      Action.leave (progress.answer stage.site.rejection)
        (stage.arrived "" state.name record progress) := by
  unfold enter
  unfold Machine.enter? at hprogress
  obtain ⟨found, hfound, rfl⟩ := Option.map_eq_some_iff.mp hprogress
  rw [hfound]
  cases found with
  | task task => exact handOff_of_recorded hlocal h hstate task input
  | succeed comment => exact finish_of_recorded h "" state.name _
  | fail failure => exact finish_of_recorded h "" state.name _

theorem dispatch_of_finished (h : stage.Stands record machine) (hstate : record.state = none)
    {result : ExecutionResult} (hresult : record.result = some result) (input : Json) :
    dispatch input stage = .ok (.finished result) stage := by
  unfold dispatch
  rw [Action.bind_of_ok (definition_of_stands h), Action.bind_of_ok (current_of_recorded h.recorded),
    hstate, hresult]
  rfl

theorem dispatch_of_entrance (h : stage.Stands record machine) {name : String}
    (hentrance : record.entrance? machine = some name) {input : Json}
    (hprogress : machine.enter? name input = some progress) :
    dispatch input stage =
      Action.leave (progress.answer stage.site.rejection)
        (stage.arrived "" name record progress) := by
  unfold dispatch
  rw [Action.bind_of_ok (definition_of_stands h), Action.bind_of_ok (current_of_recorded h.recorded)]
  unfold ExecutionRecord.entrance? at hentrance
  cases hstate : record.state with
  | some state =>
      rw [hstate] at hentrance
      obtain rfl : state.name = name := Option.some.inj hentrance
      exact enter_of_recorded h.isLocal h.recorded hstate hprogress
  | none =>
      rw [hstate] at hentrance
      cases hresult : record.result with
      | some result => rw [hresult] at hentrance; cases hentrance
      | none =>
          rw [hresult] at hentrance
          obtain rfl : machine.startAt = name := Option.some.inj hentrance
          let started : ExecutionRecord :=
            { record with state := some { name := machine.startAt, data := none } }
          have hstarted : (stage.withRecord started).Stands started machine := h.withRecord rfl
          have harrived : started.arrived progress = record.arrived progress := by
            cases progress <;> rfl
          change (onHandle (Handle.changeState machine.startAt none) >>= fun _ =>
            enter machine machine.startAt input) stage = _
          rw [Action.bind_of_ok (changeState_of_recorded h.recorded _ _),
            enter_of_recorded hstarted.isLocal hstarted.recorded rfl hprogress,
            arrived_withRecord started "" machine.startAt harrived, site_withRecord]

theorem dispatch_of_successor (h : stage.Stands record machine) {next : String} {input : Json}
    (data : Option Json) (hprogress : machine.enter? next input = some progress) :
    (onHandle (Handle.changeState next data) >>= fun _ => dispatch input) stage =
      Action.leave (progress.answer stage.site.rejection)
        (stage.arrived "" next record progress) := by
  let moved : ExecutionRecord := { record with state := some { name := next, data } }
  have hmoved : (stage.withRecord moved).Stands moved machine := h.withRecord rfl
  have harrived : moved.arrived progress = record.arrived progress := by
    cases progress <;> rfl
  rw [Action.bind_of_ok (changeState_of_recorded h.recorded next data),
    dispatch_of_entrance hmoved rfl hprogress, arrived_withRecord moved "" next harrived,
    site_withRecord]

theorem recordReport_of_stands (h : stage.Stands record machine) (name : String)
    {task : TaskState} {report : Except String Json}
    (hprogress : machine.complete? task report = some progress) :
    recordReport name task report stage =
      Action.leave (progress.answer stage.site.rejection)
        ((stage.logged task.resource name (task.reportLine report)).arrived
          (task.landing name report).1 (task.landing name report).2 record progress) := by
  have hlogged : ∀ line, (stage.logged task.resource name line).Stands record machine :=
    h.logged task.resource name
  cases report with
  | ok output =>
      unfold recordReport recordSuccess TaskState.landing TaskState.successor? TaskState.reportLine
      unfold Machine.complete? at hprogress
      cases hnext : task.next with
      | none =>
          simp only [hnext, Option.some.injEq] at hprogress ⊢
          subst hprogress
          rw [Action.bind_of_ok (log_apply _ _ _ _), finish_of_recorded (hlogged _).recorded]
          rfl
      | some next =>
          simp only [hnext] at hprogress ⊢
          rw [Action.bind_of_ok (log_apply _ _ _ _), dispatch_of_successor (hlogged _) none hprogress]
          rfl
  | error code =>
      unfold recordReport recordFailure TaskState.landing TaskState.successor? TaskState.reportLine
      unfold Machine.complete? at hprogress
      simp only [← TaskState.catcherFor?_eq] at hprogress
      cases hcatcher : task.catcherFor? code with
      | none =>
          simp only [hcatcher, Option.some.injEq, Option.map_none] at hprogress ⊢
          subst hprogress
          rw [Action.bind_of_ok (log_apply _ _ _ _), finish_of_recorded (hlogged _).recorded]
          rfl
      | some catcher =>
          simp only [hcatcher, Option.map_some] at hprogress ⊢
          rw [Action.bind_of_ok (log_apply _ _ _ _), dispatch_of_successor (hlogged _) _ hprogress]
          rfl

theorem recordReport_reaches (h : stage.Stands record machine) (name : String) {task : TaskState}
    {report : Except String Json} (hprogress : machine.complete? task report = some progress) :
    ∃ after, recordReport name task report stage =
        Action.leave (progress.answer stage.site.rejection) after ∧
      stage.Reaches record progress after :=
  ⟨_, recordReport_of_stands h name hprogress, (reaches_arrived _ record progress _ _).of_logged⟩

theorem dispatch_reaches (h : stage.Stands record machine) {name : String}
    (hentrance : record.entrance? machine = some name) {input : Json}
    (hprogress : machine.enter? name input = some progress) :
    ∃ after, dispatch input stage = Action.leave (progress.answer stage.site.rejection) after ∧
      stage.Reaches record progress after :=
  ⟨_, dispatch_of_entrance h hentrance hprogress, reaches_arrived stage record progress "" name⟩

theorem taskInFlight_of_atTask (h : stage.Stands record machine) {state : ExecutionState}
    {task : TaskState} (hstate : record.state = some state)
    (htask : machine.state? state.name = some (.task task)) :
    taskInFlight stage = .ok (state.name, task) stage := by
  unfold taskInFlight
  rw [Action.bind_of_ok (current_of_recorded h.recorded), hstate]
  change (definition >>= fun machine => _) stage = _
  rw [Action.bind_of_ok (definition_of_stands h), htask]
  rfl

/-- Why there is no task to record an outcome of, at an execution that is at no state. -/
def idleError : Option ExecutionResult → ExecutorError
  | some result => .alreadyFinished result.status
  | none => .noTaskInFlight

theorem taskInFlight_of_idle (h : stage.handle.record = .ok record) (hstate : record.state = none) :
    taskInFlight stage = .error (idleError record.result) stage := by
  unfold taskInFlight
  rw [Action.bind_of_ok (current_of_recorded h), hstate]
  cases record.result <;> rfl

/-- An execution that has a task in flight is at that task. -/
theorem Stands.inFlight (h : stage.Stands record machine) {after : Stage} {name : String} {state : TaskState}
    (hflight : taskInFlight stage = .ok (name, state) after) :
    after = stage ∧ record.state.map (·.name) = some name ∧
      machine.state? name = some (.task state) := by
  cases hstate : record.state with
  | none =>
      rw [taskInFlight_of_idle h.recorded hstate] at hflight
      cases hflight
  | some current =>
      unfold taskInFlight at hflight
      rw [Action.bind_of_ok (current_of_recorded h.recorded), hstate] at hflight
      change (definition >>= fun machine => _) stage = _ at hflight
      rw [Action.bind_of_ok (definition_of_stands h)] at hflight
      cases hfound : machine.state? current.name with
      | none =>
          rw [hfound] at hflight
          cases hflight
      | some found =>
          rw [hfound] at hflight
          cases found with
          | task task =>
              cases hflight
              exact ⟨rfl, rfl, hfound⟩
          | succeed comment => cases hflight
          | fail failure => cases hflight

end Workflow.Stage

namespace Workflow.Worker

variable {ρ ε : Type} {worker : Worker ρ ε} {stage : Stage} {record : ExecutionRecord}
  {machine : Machine} {progress : Progress} {resource : String} {input : Json} {memory rest : ρ}

theorem runTask_of_idle (h : stage.handle.record = .ok record) (hstate : record.state = none) :
    worker.runTask resource input (stage, memory) =
      .error (Stage.idleError record.result) (stage, memory) := by
  unfold runTask
  simp only [Stage.taskInFlight_of_idle h hstate]

theorem runTask_of_atTask (h : stage.Stands record machine) {state : ExecutionState}
    {task : TaskState} (hstate : record.state = some state)
    (htask : machine.state? state.name = some (.task task)) {report : Except String Json}
    (hreport : worker.perform resource input memory = (report, rest))
    (hprogress : machine.complete? task report = some progress) :
    worker.runTask resource input (stage, memory) =
      Action.leave (progress.answer stage.site.rejection)
        ((stage.logged task.resource state.name (task.reportLine report)).arrived
          (task.landing state.name report).1 (task.landing state.name report).2 record progress,
          rest) := by
  unfold runTask
  simp only [Stage.taskInFlight_of_atTask h hstate htask, hreport,
    Stage.recordReport_of_stands h state.name hprogress]
  cases progress.answer stage.site.rejection <;> rfl

end Workflow.Worker
