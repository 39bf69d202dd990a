import Workflow.Proofs.Worker.Turn

/-!
# What a worker has in hand

A worker that takes the oldest task is called with the resource and the input of the task. Which state
its report is recorded for is not said by the task but by the execution, which is looked at then. Both
together are what the worker has in hand, and a turn is a function of it.
-/

namespace Workflow

/-- A task that was taken from the queue, and the task state that its execution is at. -/
structure InHand where
  task : QueuedTask
  stage : Stage
  name : String
  state : TaskState

/-- What a worker would have in hand that took the oldest task, if it got so far as to do the work. -/
def Site.inHand? (site : Site) : Option InHand :=
  match site.queue.take with
  | (none, _) => none
  | (some task, queue) =>
    match Executor.hydrate task.context { site with queue } with
    | .error _ _ => none
    | .ok executor site =>
      match Stage.taskInFlight { executor, site } with
      | .error _ _ => none
      | .ok (name, state) stage => some { task, stage, name, state }

/-- What a worker is called with. -/
def InHand.call (hand : InHand) : Call :=
  (hand.task.resource, hand.task.input)

/-- Something is in hand only if there was a task, its execution could be taken over, and it was at a
task state. -/
theorem Site.of_inHand? {site : Site} {hand : InHand} (h : site.inHand? = some hand) :
    ∃ rest executor taken, site.queue.pending = hand.task :: rest ∧
      Executor.hydrate hand.task.context
        { site with queue := { site.queue with pending := rest } } = .ok executor taken ∧
      Stage.taskInFlight { executor, site := taken } = .ok (hand.name, hand.state) hand.stage := by
  unfold inHand? Queue.take at h
  cases hpending : site.queue.pending with
  | nil =>
      simp only [hpending] at h
      cases h
  | cons task rest =>
      simp only [hpending] at h
      cases hhydrate : Executor.hydrate task.context
          { site with queue := { site.queue with pending := rest } } with
      | error error after =>
          simp only [hhydrate] at h
          cases h
      | ok executor taken =>
          simp only [hhydrate] at h
          cases hflight : Stage.taskInFlight { executor, site := taken } with
          | error error stage =>
              simp only [hflight] at h
              cases h
          | ok found stage =>
              simp only [hflight] at h
              obtain rfl := Option.some.inj h
              exact ⟨rest, executor, taken, rfl, hhydrate, hflight⟩

/-- A worker that takes a waiting task has it in hand, at the state that its execution waits at. -/
theorem QueuedTask.Waits.exists_inHand {site : Site} {task : QueuedTask} {rest : List QueuedTask}
    {executor : Executor} {machine : Machine} {name : String}
    (h : task.Waits site executor machine name) (hpending : site.queue.pending = task :: rest) :
    ∃ id hand, site.inHand? = some hand ∧ hand.task = task ∧ hand.name = name ∧
      machine.state? name = some (.task hand.state) ∧
      hand.stage.Resumes executor site rest ∧
      hand.stage.Stands (.waiting id name task.input) machine := by
  obtain ⟨id, hstands⟩ := h.stands
  obtain ⟨state, hstate, _⟩ := h.atTask
  have hhydrated : Executor.hydrate task.context
      { site with queue := { site.queue with pending := rest } } =
      .ok { executor with executorId := Identifier.spell site.issued } (site.taking rest) :=
    h.hydrate rfl rfl
  have htaken : Stage.Stands
      { executor := { executor with executorId := Identifier.spell site.issued }
        site := site.taking rest } (.waiting id name task.input) machine :=
    hstands.elsewhere rfl (fun _ _ _ hfind => hfind) rfl
  -- The identifier stays a variable here, since checking by computation would spell it out.
  have hresumes : ∀ executorId, executorId = Identifier.spell site.issued → Stage.Resumes
      { executor := { executor with executorId }, site := site.taking rest } executor site rest :=
    fun _ hid => ⟨rfl, hid, rfl, rfl⟩
  refine ⟨id, { task, stage := _, name, state }, ?_, rfl, rfl, hstate, hresumes _ rfl, htaken⟩
  unfold Site.inHand?
  simp only [Queue.take_of_pending hpending, hhydrated, Stage.taskInFlight_of_atTask htaken rfl hstate]

namespace Worker

variable {ρ ε : Type} (worker : Worker ρ ε) {site : Site}

/-- The work in hand is done, and the report of it is recorded for the state in hand. -/
def finish (hand : InHand) (memory : ρ) :
    EStateM.Result ExecutorError (Site × ρ) (Option Outcome) :=
  let (report, memory) := worker.perform hand.task.resource hand.task.input memory
  match Stage.recordReport hand.name hand.state report hand.stage with
  | .ok outcome stage => .ok (some outcome) (stage.site, memory)
  | .error error stage => .error error (stage.site, memory)

theorem runNext_of_inHand {hand : InHand} (h : site.inHand? = some hand) (memory : ρ) :
    worker.runNext (site, memory) = worker.finish hand memory := by
  obtain ⟨rest, executor, taken, hpending, hhydrate, hflight⟩ := Site.of_inHand? h
  unfold runNext
  simp only [Queue.take_of_pending hpending, hhydrate]
  unfold runTask finish
  simp only [hflight]
  cases Stage.recordReport hand.name hand.state
    (worker.perform hand.task.resource hand.task.input memory).1 hand.stage <;> rfl

section Recorded

variable {hand : InHand} {report : Except String Json} {left : Stage} {memory rest : ρ}
  (hhand : site.inHand? = some hand)
  (hreport : worker.perform hand.task.resource hand.task.input memory = (report, rest))

include hhand hreport

theorem runNext_of_recorded {outcome : Outcome}
    (hleft : Stage.recordReport hand.name hand.state report hand.stage = .ok outcome left) :
    worker.runNext (site, memory) = .ok (some outcome) (left.site, rest) := by
  rw [worker.runNext_of_inHand hhand]
  unfold finish
  simp only [hreport, hleft]

theorem runNext_of_unrecorded {error : ExecutorError}
    (hleft : Stage.recordReport hand.name hand.state report hand.stage = .error error left) :
    worker.runNext (site, memory) = .error error (left.site, rest) := by
  rw [worker.runNext_of_inHand hhand]
  unfold finish
  simp only [hreport, hleft]

end Recorded

/-- A worker with nothing in hand is not called, and has no outcome. -/
theorem runNext_of_emptyHanded (h : site.inHand? = none) (memory : ρ) :
    ∃ after, worker.runNext (site, memory) = .ok none (after, memory) ∨
      ∃ error, worker.runNext (site, memory) = .error error (after, memory) := by
  unfold Site.inHand? at h
  unfold runNext
  cases htake : site.queue.take with
  | mk taken queue =>
      cases taken with
      | none =>
          simp only [htake]
          exact ⟨site, .inl rfl⟩
      | some task =>
          simp only [htake] at h ⊢
          cases hhydrate : Executor.hydrate task.context { site with queue } with
          | error error after => exact ⟨_, .inr ⟨error, rfl⟩⟩
          | ok executor after =>
              simp only [hhydrate] at h ⊢
              cases hflight : Stage.taskInFlight { executor, site := after } with
              | error error stage =>
                  unfold runTask
                  simp only [hflight]
                  exact ⟨stage.site, .inr ⟨error, rfl⟩⟩
              | ok found stage =>
                  simp only [hflight] at h
                  cases h

/-- A worker that finds a waiting task does it, and its report takes the execution on. -/
theorem runNext_of_waiting {task : QueuedTask} {rest : List QueuedTask} {executor : Executor}
    {machine : Machine} {name : String} (hvalid : machine.violations = [])
    (hpending : site.queue.pending = task :: rest) (h : task.Waits site executor machine name)
    (hopen : site.rejection = none) (memory : ρ) :
    ∃ (id : String) (progress : Progress) (before after : Stage),
      worker.runNext (site, memory) =
        .ok (some progress.outcome)
          (after.site, (worker.perform task.resource task.input memory).2) ∧
      progress.IsAt machine ∧
      before.Resumes executor site rest ∧
      before.Stands (.waiting id name task.input) machine ∧
      before.Reaches (.waiting id name task.input) progress after := by
  obtain ⟨id, hand, hhand, rfl, rfl, hstate, hresumes, hstands⟩ := h.exists_inHand hpending
  obtain ⟨progress, hprogress⟩ := Machine.exists_complete?_of_valid hvalid hstate
    (worker.perform hand.task.resource hand.task.input memory).1
  obtain ⟨after, hleft, hreaches⟩ := Stage.recordReport_reaches hstands hand.name hprogress
  have haccepting : hand.stage.site.rejection = none := by
    rw [hresumes.site]
    exact hopen
  rw [Progress.answer_of_accepting haccepting] at hleft
  exact ⟨id, progress, hand.stage, after, worker.runNext_of_recorded hhand rfl hleft,
    Machine.isAt_of_complete? hprogress, hresumes, hstands, hreaches⟩

/-- The memory that a worker is left with. -/
def memoryAfter {α : Type} : EStateM.Result ExecutorError (Site × ρ) α → ρ
  | .ok _ (_, memory) => memory
  | .error _ (_, memory) => memory

theorem memoryAfter_finish (hand : InHand) (memory : ρ) :
    memoryAfter (worker.finish hand memory) =
      (worker.perform hand.task.resource hand.task.input memory).2 := by
  unfold finish
  cases worker.perform hand.task.resource hand.task.input memory with
  | mk report rest =>
      simp only
      cases Stage.recordReport hand.name hand.state report hand.stage <;> rfl

end Worker

end Workflow
