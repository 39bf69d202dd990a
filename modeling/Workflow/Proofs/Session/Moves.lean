import Workflow.Proofs.Executor.Delivery
import Workflow.Proofs.Session.Handover
import Workflow.Proofs.Session.Linear
import Workflow.Proofs.Worker.Workshop

/-!
# Sessions with workers

A session whose queue is worked off between the calls. A worker takes the oldest task, takes the
execution over from its context and runs the task; the executor that does so counts among those that
were given out.
-/

namespace Workflow

/-- What happens in a session: a call, or a worker comes for the oldest task. -/
inductive Move : Type 1 where
  | call (command : Command)
  | work {ρ ε : Type} (worker : Worker ρ ε) (memory : ρ)

namespace Session

variable {ρ ε : Type}

/-- The oldest task is taken and run. A task whose context is of no use goes back. -/
def workNext (session : Session) (worker : Worker ρ ε) (memory : ρ) : Answer × Session :=
  match session.site.queue.take with
  | (none, _) => (none, session)
  | (some task, queue) =>
    match Executor.hydrate task.context { session.site with queue } with
    | .error error site =>
      (some (.error error), { session with site := { site with queue := site.queue.putBack task } })
    | .ok executor site =>
      (session.given executor site).call session.executors.length
        (runTask task.resource task.input (worker.perform task.resource task.input memory).1) .outcome

def move (session : Session) : Move → Answer × Session
  | .call command => session.step command
  | .work worker memory => session.workNext worker memory

/-- The session after a list of moves. -/
def moveAll (session : Session) (moves : List Move) : Session :=
  moves.foldl (fun session move => (session.move move).2) session

theorem workNext_of_idle {session : Session} (h : session.site.queue.pending = [])
    (worker : Worker ρ ε) (memory : ρ) : session.workNext worker memory = (none, session) := by
  unfold workNext Queue.take
  rw [h]

theorem workNext_of_refused {session : Session} {task : QueuedTask} {rest : List QueuedTask}
    (h : session.site.queue.pending = task :: rest) {error : ExecutorError} {site : Site}
    (hhydrate : Executor.hydrate task.context
      { session.site with queue := { session.site.queue with pending := rest } } = .error error site)
    (worker : Worker ρ ε) (memory : ρ) :
    session.workNext worker memory =
      (some (.error error),
        { session with site := { site with queue := site.queue.putBack task } }) := by
  unfold workNext Queue.take
  rw [h]
  simp only [hhydrate]

theorem workNext_of_taken {session : Session} {task : QueuedTask} {rest : List QueuedTask}
    (h : session.site.queue.pending = task :: rest) {executor : Executor} {site : Site}
    (hhydrate : Executor.hydrate task.context
      { session.site with queue := { session.site.queue with pending := rest } } = .ok executor site)
    (worker : Worker ρ ε) (memory : ρ) :
    session.workNext worker memory =
      (session.given executor site).call session.executors.length
        (runTask task.resource task.input (worker.perform task.resource task.input memory).1)
        .outcome := by
  unfold workNext Queue.take
  rw [h]
  simp only [hhydrate]

theorem getElem?_given (session : Session) (executor : Executor) (site : Site) :
    (session.given executor site).executors[session.executors.length]? = some executor := by
  change (session.executors ++ [executor])[session.executors.length]? = some executor
  rw [List.getElem?_append_right (Nat.le_refl _), Nat.sub_self]
  rfl

/-- A worker does in a session what it does at the site. -/
theorem workNext_eq_runNext (session : Session) (worker : Worker ρ ε) (memory : ρ) :
    (session.workNext worker memory).2.site =
        Workshop.siteAfter (worker.runNext (session.site, memory)) ∧
      (session.workNext worker memory).1 =
        match worker.runNext (session.site, memory) with
        | .ok none _ => none
        | .ok (some outcome) _ => some (.ok (.outcome outcome))
        | .error error _ => some (.error error) := by
  cases hpending : session.site.queue.pending with
  | nil =>
      rw [workNext_of_idle hpending, worker.runNext_of_idle hpending]
      exact ⟨rfl, rfl⟩
  | cons task rest =>
      have htake := Queue.take_of_pending hpending
      cases hhydrate : Executor.hydrate task.context
          { session.site with queue := { session.site.queue with pending := rest } } with
      | error error site =>
          rw [workNext_of_refused hpending hhydrate]
          unfold Worker.runNext
          simp only [htake, hhydrate]
          exact ⟨rfl, trivial⟩
      | ok executor site =>
          have hreport := worker.runTask_eq_reporting task.resource task.input { executor, site } memory
          rw [workNext_of_taken hpending hhydrate, call, getElem?_given]
          unfold Worker.runNext
          simp only [htake, hhydrate]
          unfold Action.onPart at hreport
          change _ = runTask _ _ _ ((session.given executor site).stage executor) at hreport
          simp only [← hreport]
          cases worker.runTask task.resource task.input ({ executor, site }, memory) with
          | ok outcome after => exact ⟨rfl, rfl⟩
          | error error after => exact ⟨rfl, rfl⟩

theorem delivers_runTask (resource : String) (input : Json) (report : Except String Json)
    (view : View) :
    Stage.Delivers (runTask resource input report) (payloadAfter report) view := by
  rw [runTask_eq_bind]
  exact (Stage.isQuiet_taskInFlight view).delivers fun found =>
    Stage.delivers_recordReport found.1 found.2 report

/-- A call that can hand a task off leaves the session at the stage that it leaves. -/
theorem call_of_delivers {session : Session} (hannouncement : session.site.definitions.announcement = none)
    {action : Action Stage Outcome} {input : Json}
    (hdelivers : ∀ view, Stage.Delivers action input view) {slot : Nat}
    {executor : Executor} (hslot : session.executors[slot]? = some executor) :
    ∃ answer changes,
      session.call slot action .outcome =
        (some (answer.map .outcome), session.put slot ((session.stage executor).changed changes)) ∧
      (session.stage executor).Leaves ((session.stage executor).changed changes) input answer := by
  have hstage : (session.stage executor).site.definitions.announcement = none := hannouncement
  obtain ⟨answer, changes, haction, hleaves⟩ := (hdelivers _).leaves hstage
  exact ⟨answer, changes, call_of_leave hslot haction _, hleaves⟩

theorem ids_call {session : Session} (hannouncement : session.site.definitions.announcement = none)
    {action : Action Stage Outcome} {input : Json}
    (hdelivers : ∀ view, Stage.Delivers action input view) (slot : Nat) :
    (session.call slot action .outcome).2.ids = session.ids := by
  cases hslot : session.executors[slot]? with
  | none => rw [call_of_absent hslot]
  | some executor =>
      obtain ⟨answer, changes, hcall, -⟩ := call_of_delivers hannouncement hdelivers hslot
      rw [hcall]
      exact ids_put hslot ((session.stage executor).confined_changed changes).executionId

end Session

end Workflow
