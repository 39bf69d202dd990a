import Workflow.Proofs.Executor.Creation
import Workflow.Proofs.Worker.InHand

/-!
# The plain meaning of a run

An execution that is handed from executor to executor through the queue does what the machine does
when it is simply run: the worker is called with the same work in the same order, the calls answer
the same, and in the end the execution stands where the machine stands.
-/

namespace Workflow

namespace Worker

variable {ρ ε : Type}

/-- The worker that also remembers its calls, oldest first. -/
def recording (worker : Worker ρ ε) : Worker (ρ × List Call) ε :=
  { run := fun resource input (memory, calls) =>
      let (answer, memory) := worker.run resource input memory
      (answer, memory, calls ++ [(resource, input)])
    code := fun error (memory, calls) =>
      let (code, memory) := worker.code error memory
      (code, memory, calls) }

theorem perform_recording (worker : Worker ρ ε) (resource : String) (input : Json) (memory : ρ)
    (calls : List Call) :
    worker.recording.perform resource input (memory, calls) =
      ((worker.perform resource input memory).1, (worker.perform resource input memory).2,
        calls ++ [(resource, input)]) := by
  obtain ⟨run, code⟩ := worker
  unfold perform recording
  simp only
  generalize run resource input memory = done
  obtain ⟨error | output, rest⟩ := done <;> rfl

theorem run?_pending (worker : Worker ρ ε) {machine : Machine} {name resource : String}
    {payload : Json} {memory : ρ} {task : TaskState} {progress : Progress}
    (htask : machine.state? name = some (.task task))
    (hprogress : machine.complete? task (worker.perform resource payload memory).1 = some progress)
    (limit : Nat) :
    machine.run? worker (limit + 1) (.pending name resource payload) memory =
      (machine.run? worker limit progress (worker.perform resource payload memory).2).map
        fun (trace, rest) => (trace.after (resource, payload) progress.outcome, rest) := by
  rw [Machine.run?, htask]
  cases hdone : worker.perform resource payload memory with
  | mk report after =>
      rw [hdone] at hprogress
      change (machine.complete? task report).bind _ = _
      rw [hprogress]
      change (machine.run? worker limit progress after).bind _ = _
      rw [Option.map_eq_bind]
      rfl

end Worker

/-- All that is under way at a site is one execution of a machine, and it has come to `progress`. The
executor is the one that called last. -/
structure Site.Runs (site : Site) (machine : Machine) (executor : Executor) (progress : Progress) :
    Prop where
  accepting : site.rejection = none
  kept : executor.execution.held.isNone = site.central
  stands : ∃ id,
    Stage.Stands { executor, site } ((ExecutionRecord.following id).arrived progress) machine
  isAt : progress.IsAt machine
  queue : site.queue.pending =
    (progress.queued none (executor.exported site.definitions) .empty).pending

/-- What a worker answers that was to run until nothing is left, `limit` tasks at the most. -/
def Trace.verdict (trace : Trace) (limit : Nat) : Except ExecutorError (List Outcome) :=
  match trace.progress with
  | .done _ => .ok trace.outcomes
  | .pending _ resource _ =>
    .error (.component (.dispatchFailed resource s!"still pending after {limit} tasks"))

/-- What a site shows of an execution. One that is under way is in the queue with its task, and can
be taken over there. One that has finished has left the queue, and the site tells its result if it
keeps executions itself. -/
def Site.Shows (site : Site) (executor : Executor) : Progress → Prop
  | .pending name resource payload =>
    ∃ context hydrated after,
      site.queue.pending = [{ resource, input := payload, context }] ∧
      Executor.hydrate context site = .ok hydrated after ∧
      hydrated.executionId = executor.executionId ∧
      Stage.current { executor := hydrated, site := after } =
        .ok (some { name, data := some payload }, none) { executor := hydrated, site := after }
  | .done result =>
    site.queue.pending = [] ∧
    (site.central = true →
      Stage.current { executor, site } = .ok (none, some result) { executor, site })

namespace Site.Runs

variable {site : Site} {machine : Machine} {executor : Executor} {progress : Progress}

theorem waits {name resource : String} {payload : Json}
    (h : site.Runs machine executor (.pending name resource payload)) :
    QueuedTask.Waits
      { resource, input := payload, context := executor.exported site.definitions }
      site executor machine name :=
  { context := rfl
    kept := h.kept
    stands := h.stands
    atTask := h.isAt name resource payload rfl }

/-- A call that takes an execution on takes the site on, if no other task was waiting. -/
theorem of_reaches {before after : Stage} {record : ExecutionRecord} {id : String}
    (hreaches : before.Reaches record progress after) (hstands : before.Stands record machine)
    (hrecord : record.arrived progress = (ExecutionRecord.following id).arrived progress)
    (haccepting : before.site.rejection = none)
    (hkept : before.executor.execution.held.isNone = before.site.central)
    (hidle : before.site.queue.pending = []) (hat : progress.IsAt machine) :
    after.site.Runs machine after.executor progress := by
  have hdefinitions : after.site.definitions = before.site.definitions := by rw [hreaches.site]
  refine ⟨?_, ?_, ⟨id, ?_⟩, hat, ?_⟩
  · rw [hreaches.site]
    exact haccepting
  · rw [hreaches.held, Option.isNone_map, hkept, hreaches.site]
  · rw [← hrecord]
    exact hreaches.stands hstands
  · rw [hreaches.queue, haccepting, hdefinitions]
    cases progress with
    | done result => exact hidle
    | pending name resource payload =>
        change before.site.queue.pending ++ [_] = [] ++ [_]
        rw [hidle]

theorem shows {shown : Executor} (h : site.Runs machine executor progress)
    (hid : shown.executionId = executor.executionId)
    (hkept : shown.execution.held.isNone = site.central) : site.Shows shown progress := by
  cases progress with
  | pending name resource payload =>
      have hwaits := h.waits
      have hrenamed : ∀ executorId : String,
          Executor.executionId { executor with executorId } = shown.executionId :=
        fun _ => hid.symm
      exact ⟨executor.exported site.definitions, _, _, h.queue, hwaits.hydrate rfl rfl, hrenamed _,
        hwaits.current_hydrated⟩
  | done result =>
      refine ⟨h.queue, ?_⟩
      intro hcentral
      obtain ⟨id, hstands⟩ := h.stands
      have hexecution : shown.execution = executor.execution := by
        have hnone : ∀ {execution : Execution}, execution.held.isNone = site.central →
            execution.held = none := by
          intro execution hheld
          rwa [hcentral, Option.isNone_iff_eq_none] at hheld
        have hheld := (hnone hkept).trans (hnone h.kept).symm
        calc shown.execution
          _ = { id := shown.executionId, held := shown.execution.held } := rfl
          _ = { id := executor.executionId, held := executor.execution.held } := by
            rw [hid, hheld]
      have hrecorded : Stage.handle { executor := shown, site } = Stage.handle { executor, site } := by
        unfold Stage.handle
        rw [hexecution]
      have hrecord := hstands.recorded
      rw [← hrecorded] at hrecord
      exact Stage.current_of_recorded hrecord

/-- The task of an execution is what a worker has in hand, and whatever is reported of it takes the
execution on. -/
theorem exists_turn {name resource : String} {payload : Json}
    (h : site.Runs machine executor (.pending name resource payload))
    (hvalid : machine.violations = []) :
    ∃ hand, site.inHand? = some hand ∧ hand.task.resource = resource ∧ hand.task.input = payload ∧
      hand.name = name ∧ machine.state? name = some (.task hand.state) ∧
      ∀ report, ∃ (progress : Progress) (left : Stage),
        machine.complete? hand.state report = some progress ∧
        Stage.recordReport hand.name hand.state report hand.stage = .ok progress.outcome left ∧
        left.site.Runs machine left.executor progress ∧
        left.executor.executionId = executor.executionId ∧
        left.site.central = site.central := by
  obtain ⟨id, hand, hhand, htask, rfl, hstate, hresumes, hstands⟩ := h.waits.exists_inHand h.queue
  have haccepting : hand.stage.site.rejection = none := by
    rw [hresumes.site]
    exact h.accepting
  have hcentral : hand.stage.site.central = site.central := by
    rw [hresumes.site]
    rfl
  have hkept : hand.stage.executor.execution.held.isNone = hand.stage.site.central := by
    rw [hresumes.execution, hcentral]
    exact h.kept
  have hidle : hand.stage.site.queue.pending = [] := by
    rw [hresumes.site]
    rfl
  refine ⟨hand, hhand, by rw [htask], by rw [htask], rfl, hstate, fun report => ?_⟩
  obtain ⟨progress, hprogress⟩ := Machine.exists_complete?_of_valid hvalid hstate report
  obtain ⟨left, hleft, hreaches⟩ := Stage.recordReport_reaches hstands hand.name hprogress
  rw [Progress.answer_of_accepting haccepting] at hleft
  have hrecord : (ExecutionRecord.waiting id hand.name payload).arrived progress =
      (ExecutionRecord.following id).arrived progress := by
    cases progress <;> rfl
  refine ⟨progress, left, hprogress, hleft, ?_, hreaches.executionId.trans hresumes.executionId, ?_⟩
  · exact .of_reaches hreaches hstands hrecord haccepting hkept hidle
      (Machine.isAt_of_complete? hprogress)
  · rw [hreaches.site]
    exact hcentral

end Site.Runs

namespace Worker

variable {ρ ε : Type} {worker : Worker ρ ε} {site : Site} {machine : Machine} {executor : Executor}
  {progress : Progress} {memory : ρ}

theorem runNext_of_runs (hvalid : machine.violations = []) {name resource : String} {payload : Json}
    (h : site.Runs machine executor (.pending name resource payload)) :
    ∃ (task : TaskState) (progress : Progress) (after : Stage),
      machine.state? name = some (.task task) ∧
      machine.complete? task (worker.perform resource payload memory).1 = some progress ∧
      worker.runNext (site, memory) =
        .ok (some progress.outcome) (after.site, (worker.perform resource payload memory).2) ∧
      after.site.Runs machine after.executor progress ∧
      after.executor.executionId = executor.executionId ∧
      after.site.central = site.central := by
  obtain ⟨hand, hhand, rfl, rfl, rfl, hstate, hturn⟩ := h.exists_turn hvalid
  obtain ⟨progress, after, hprogress, hleft, hruns, hid, hcentral⟩ :=
    hturn (worker.perform hand.task.resource hand.task.input memory).1
  exact ⟨hand.state, progress, after, hstate, hprogress, worker.runNext_of_recorded hhand rfl hleft,
    hruns, hid, hcentral⟩

theorem drain_of_runs (hvalid : machine.violations = []) (h : site.Runs machine executor progress)
    (limit : Nat) :
    ∃ (trace : Trace) (rest : ρ) (after : Site) (last : Executor),
      machine.run? worker limit progress memory = some (trace, rest) ∧
      worker.drain limit (site, memory) = .ok trace.outcomes (after, rest) ∧
      after.Runs machine last trace.progress ∧
      last.executionId = executor.executionId ∧
      after.central = site.central := by
  -- One more task is one more turn, and one more step of the plain run.
  induction limit generalizing site executor progress memory with
  | zero => exact ⟨.start progress, memory, site, executor, rfl, rfl, h, rfl, rfl⟩
  | succ limit ih =>
      cases progress with
      | done result =>
          exact ⟨.start (.done result), memory, site, executor, rfl, drain_of_idle h.queue _, h, rfl, rfl⟩
      | pending name resource payload =>
          obtain ⟨task, progress, after, htask, hprogress, hrun, hruns, hid, hcentral⟩ :=
            runNext_of_runs hvalid h
          obtain ⟨trace, rest, site', last, hlater, hdrain, hlast, hlastId, hlastCentral⟩ := ih hruns
          refine ⟨trace.after (resource, payload) progress.outcome, rest, site', last, ?_, ?_, hlast,
            hlastId.trans hid, hlastCentral.trans hcentral⟩
          · rw [run?_pending worker htask hprogress, hlater]
            rfl
          · rw [drain, Action.bind_of_ok hrun]
            change (worker.drain limit >>= fun outcomes => _) _ = _
            rw [Action.bind_of_ok hdrain]
            rfl

theorem runUntilIdle_of_runs (hvalid : machine.violations = [])
    (h : site.Runs machine executor progress) (limit : Nat) :
    ∃ (trace : Trace) (rest : ρ) (after : Site) (last : Executor),
      machine.run? worker limit progress memory = some (trace, rest) ∧
      worker.runUntilIdle limit (site, memory) = Action.leave (trace.verdict limit) (after, rest) ∧
      after.Runs machine last trace.progress ∧
      last.executionId = executor.executionId ∧
      after.central = site.central := by
  obtain ⟨trace, rest, after, last, hrun, hdrain, hlast, hid, hcentral⟩ :=
    drain_of_runs hvalid h limit
  refine ⟨trace, rest, after, last, hrun, ?_, hlast, hid, hcentral⟩
  rw [runUntilIdle, Action.bind_of_ok hdrain, Action.bind_of_ok (Action.get_apply _)]
  have hqueue := hlast.queue
  unfold Trace.verdict
  cases hprogress : trace.progress with
  | done result =>
      rw [hprogress] at hqueue
      simp only [hqueue]
      rfl
  | pending name resource payload =>
      rw [hprogress] at hqueue
      simp only [hqueue]
      rfl

end Worker

/-- At a site of its own an execution of a valid machine is created and dispatched without an error, and
comes to where entering the first state leads. -/
theorem Site.exists_runs_fresh {machine : Machine} (hvalid : machine.violations = [])
    (central : Bool) (input : Json) :
    ∃ (progress : Progress) (executor : Executor) (opened : Site) (dispatched : Stage),
      machine.enter? machine.startAt input = some progress ∧
      Executor.create machine (Site.fresh central) = .ok executor opened ∧
      Stage.dispatch input { executor, site := opened } = .ok progress.outcome dispatched ∧
      dispatched.site.Runs machine dispatched.executor progress ∧
      dispatched.executor.executionId = executor.executionId ∧
      dispatched.site.central = central := by
  let stage := (Site.fresh central).created machine
  have hlocal : (Site.fresh central).IsLocal := ⟨rfl, rfl⟩
  have hstands : stage.Stands (.following machine.contentHash) machine :=
    Site.stands_created_fresh central machine
  have hcentral : stage.site.central = central := Site.central_created _ machine
  have hkept : stage.executor.execution.held.isNone = stage.site.central :=
    (Site.isNone_held_created _ machine).trans hcentral.symm
  have haccepting : stage.site.rejection = none := Site.rejection_created _ machine
  have hqueue : stage.site.queue.pending = [] := by
    change ((Site.fresh central).created machine).site.queue.pending = []
    rw [Site.site_created]
    rfl
  obtain ⟨progress, hprogress⟩ :=
    Machine.exists_enter?_of_knows (Machine.knows_startAt hvalid) input
  obtain ⟨dispatched, hdispatch, hreaches⟩ := Stage.dispatch_reaches hstands rfl hprogress
  rw [Progress.answer_of_accepting haccepting] at hdispatch
  refine ⟨progress, stage.executor, stage.site, dispatched, hprogress, Site.create_apply hlocal machine,
    hdispatch, ?_, hreaches.executionId, ?_⟩
  · exact .of_reaches hreaches hstands rfl haccepting hkept hqueue
      (Machine.isAt_of_enter? hprogress)
  · rw [hreaches.site]
    exact hcentral

namespace Worker

/-- A worker that does nothing but fail. -/
def hopeless : Worker Unit String :=
  { run := fun _ _ memory => (.error "storm", memory)
    code := fun error memory => (error, memory) }

end Worker

end Workflow
