import Workflow.Proofs.Queue.Keeping
import Workflow.Proofs.Session.Basic
import Workflow.Proofs.Worker.Turns

/-!
# The books of a queue

A queue keeps no history. Its books do: which tasks it has accepted and which were taken from it for
good, both in order, going by what the calls answer. Main statement: whatever is called, and whatever
comes of it, what was accepted is what was removed followed by what is pending.
-/

namespace Workflow

/-- The tasks that a queue has accepted, and those that were taken from it and did not go back. -/
structure Ledger where
  accepted : List QueuedTask
  removed : List QueuedTask
  deriving DecidableEq

namespace Ledger

def blank : Ledger :=
  { accepted := []
    removed := [] }

def append (ledger later : Ledger) : Ledger :=
  { accepted := ledger.accepted ++ later.accepted
    removed := ledger.removed ++ later.removed }

theorem append_blank (ledger : Ledger) : ledger.append blank = ledger := by
  unfold append blank
  simp only [List.append_nil]

end Ledger

namespace Queue

/-- What is entered in the books accounts for what has become of a queue. -/
structure Moves (before : Queue) (ledger : Ledger) (after : Queue) : Prop where
  order : before.pending ++ ledger.accepted = ledger.removed ++ after.pending
  counted : after.dispatched = before.dispatched + ledger.accepted.length

variable {first second third queue : Queue} {ledger later : Ledger}

theorem Moves.refl (queue : Queue) : queue.Moves .blank queue :=
  ⟨List.append_nil _, rfl⟩

theorem Moves.trans (h : first.Moves ledger second) (hlater : second.Moves later third) :
    first.Moves (ledger.append later) third := by
  refine ⟨?order, ?counted⟩
  case order =>
    calc first.pending ++ (ledger.accepted ++ later.accepted)
      _ = ledger.removed ++ second.pending ++ later.accepted := by
        rw [← List.append_assoc, h.order]
      _ = ledger.removed ++ (later.removed ++ third.pending) := by
        rw [List.append_assoc, hlater.order]
      _ = ledger.removed ++ later.removed ++ third.pending := (List.append_assoc _ _ _).symm
  case counted =>
    rw [hlater.counted, h.counted, Ledger.append, List.length_append, Nat.add_assoc]

theorem moves_push (queue : Queue) (task : QueuedTask) :
    queue.Moves { accepted := [task], removed := [] } (queue.push task) :=
  ⟨rfl, rfl⟩

theorem moves_foldl_push (tasks : List QueuedTask) (queue : Queue) :
    queue.Moves { accepted := tasks, removed := [] } (tasks.foldl push queue) := by
  induction tasks generalizing queue with
  | nil => exact Moves.refl queue
  | cons task rest ih => exact (moves_push queue task).trans (ih (queue.push task))

theorem moves_take (queue : Queue) :
    queue.Moves { accepted := [], removed := queue.take.1.toList } queue.take.2 := by
  unfold take
  cases hpending : queue.pending with
  | nil => exact Moves.refl queue
  | cons task rest => exact ⟨(List.append_nil _).trans hpending, rfl⟩

/-- A task that was taken is removed, and what is accepted then stands behind the rest. -/
theorem moves_of_taken {task : QueuedTask} {rest : List QueuedTask}
    (hpending : queue.pending = task :: rest) (tasks : List QueuedTask) :
    queue.Moves { accepted := tasks, removed := [task] }
      (tasks.foldl push { queue with pending := rest }) := by
  have htaken := queue.moves_take
  rw [take_of_pending hpending] at htaken
  exact htaken.trans (moves_foldl_push tasks _)

theorem putBack_of_pending {task : QueuedTask} {rest : List QueuedTask}
    (hpending : queue.pending = task :: rest) :
    { queue with pending := rest }.putBack task = queue := by
  unfold putBack
  rw [← hpending]

end Queue

namespace Worker

variable {ρ ε : Type} (worker : Worker ρ ε) {site : Site} {memory : ρ} {task : QueuedTask}
  {rest : List QueuedTask}

/-- What a turn of a worker enters: the task is removed once it has an executor, and what the report of
the worker leads to is accepted. -/
def turnLedger : Site × ρ → Ledger := fun (site, memory) =>
  match site.queue.take with
  | (none, _) => .blank
  | (some task, queue) =>
    match Executor.hydrate task.context { site with queue } with
    | .error _ _ => .blank
    | .ok executor site =>
      match worker.runTask task.resource task.input ({ executor, site }, memory) with
      | .ok outcome (stage, _) => { accepted := stage.handedIn outcome, removed := [task] }
      | .error _ _ => { accepted := [], removed := [task] }

/-- What the turns of a run enter, until there is no task or one of them fails. -/
def drainLedger : (limit : Nat) → Site × ρ → Ledger
  | 0, _ => .blank
  | limit + 1, start =>
    match worker.runNext start with
    | .ok (some _) after => (worker.turnLedger start).append (drainLedger limit after)
    | .ok none _ | .error _ _ => worker.turnLedger start

theorem queue_runTask (resource : String) (input : Json) (stage : Stage) (memory : ρ) :
    match worker.runTask resource input (stage, memory) with
    | .ok outcome (after, _) =>
      after.site.queue = (after.handedIn outcome).foldl Queue.push stage.site.queue
    | .error _ (after, _) => after.site.queue = stage.site.queue := by
  have hflight := Stage.keeps_taskInFlight stage
  unfold runTask
  cases htask : Stage.taskInFlight stage with
  | error error after =>
      rw [htask] at hflight
      simp only [htask]
      exact hflight
  | ok found after =>
      obtain ⟨name, task⟩ := found
      rw [htask] at hflight
      have hqueue : after.site.queue = stage.site.queue := hflight
      have hreport := Stage.handsIn_recordReport name task (worker.perform resource input memory).1 after
      simp only [htask, ← hqueue]
      cases hleft : Stage.recordReport name task (worker.perform resource input memory).1 after with
      | error error left =>
          rw [hleft] at hreport
          exact hreport
      | ok outcome left =>
          rw [hleft] at hreport
          exact hreport

/-- A turn that cannot take an execution over leaves the queue as it was. -/
theorem runNext_of_refused (hpending : site.queue.pending = task :: rest) {error : ExecutorError}
    {left : Site}
    (hrefused : Executor.hydrate task.context
      { site with queue := { site.queue with pending := rest } } = .error error left) :
    worker.runNext (site, memory) = .error error ({ left with queue := site.queue }, memory) := by
  have hkept := Executor.keeps_hydrate task.context
    { site with queue := { site.queue with pending := rest } }
  rw [hrefused] at hkept
  have hqueue : left.queue = { site.queue with pending := rest } := hkept
  unfold runNext
  simp only [Queue.take_of_pending hpending, hrefused]
  rw [hqueue, Queue.putBack_of_pending hpending]

theorem turnLedger_of_refused (hpending : site.queue.pending = task :: rest) {error : ExecutorError}
    {left : Site}
    (hrefused : Executor.hydrate task.context
      { site with queue := { site.queue with pending := rest } } = .error error left) :
    worker.turnLedger (site, memory) = .blank := by
  unfold turnLedger
  simp only [Queue.take_of_pending hpending, hrefused]

theorem moves_runNext (site : Site) (memory : ρ) :
    site.queue.Moves (worker.turnLedger (site, memory))
      (Action.stateAfter (worker.runNext (site, memory))).1.queue := by
  cases hpending : site.queue.pending with
  | nil =>
      have hledger : worker.turnLedger (site, memory) = .blank := by
        unfold turnLedger Queue.take
        simp only [hpending]
      rw [hledger, runNext_of_idle hpending]
      exact Queue.Moves.refl _
  | cons task rest =>
      cases hhydrate : Executor.hydrate task.context
          { site with queue := { site.queue with pending := rest } } with
      | error error left =>
          rw [worker.turnLedger_of_refused hpending hhydrate,
            worker.runNext_of_refused hpending hhydrate]
          exact Queue.Moves.refl _
      | ok executor taken =>
          have hkept := Executor.keeps_hydrate task.context
            { site with queue := { site.queue with pending := rest } }
          rw [hhydrate] at hkept
          have htaken : taken.queue = { site.queue with pending := rest } := hkept
          have hqueue := worker.queue_runTask task.resource task.input { executor, site := taken } memory
          unfold turnLedger runNext
          simp only [Queue.take_of_pending hpending, hhydrate]
          cases hrun : worker.runTask task.resource task.input
              ({ executor, site := taken }, memory) with
          | error error after =>
              simp only [hrun, htaken] at hqueue
              change site.queue.Moves _ after.1.site.queue
              rw [hqueue]
              exact Queue.moves_of_taken hpending []
          | ok outcome after =>
              simp only [hrun, htaken] at hqueue
              change site.queue.Moves _ after.1.site.queue
              rw [hqueue]
              exact Queue.moves_of_taken hpending _

/-- Turn after turn, the books account for what has become of the queue, whichever turn ends the run. -/
theorem moves_drain (limit : Nat) (site : Site) (memory : ρ) :
    site.queue.Moves (worker.drainLedger limit (site, memory))
      (Action.stateAfter (worker.drain limit (site, memory))).1.queue := by
  induction limit generalizing site memory with
  | zero => exact Queue.Moves.refl _
  | succ limit ih =>
      have hturn := worker.moves_runNext site memory
      unfold drainLedger
      cases hrun : worker.runNext (site, memory) with
      | error error after =>
          rw [hrun] at hturn
          rw [drain, Action.bind_of_error hrun]
          exact hturn
      | ok answer after =>
          rw [hrun] at hturn
          cases answer with
          | none =>
              rw [drain, Action.bind_of_ok hrun]
              exact hturn
          | some outcome =>
              rw [worker.drain_of_some hrun, Action.stateAfter_bind_pure]
              exact hturn.trans (ih after.1 after.2)

end Worker

/-- What can be called on a queue. A worker comes with the site that it works at, which has this queue,
and with what it remembers. Between two turns of a run the queue is as after a run with a lower limit. -/
inductive QueueCall : Type 1 where
  | dispatch (task : QueuedTask)
  | takeNext
  | runNext {ρ ε : Type} (site : Site) (worker : Worker ρ ε) (memory : ρ)
  | runUntilIdle {ρ ε : Type} (site : Site) (worker : Worker ρ ε) (memory : ρ) (limit : Nat)

/-- A queue whose books are kept. -/
structure KeptQueue where
  queue : Queue
  ledger : Ledger

namespace KeptQueue

def opening : KeptQueue :=
  { queue := .empty
    ledger := .blank }

def step (kept : KeptQueue) : QueueCall → KeptQueue
  | .dispatch task =>
    { queue := kept.queue.push task
      ledger := kept.ledger.append { accepted := [task], removed := [] } }
  | .takeNext =>
    { queue := kept.queue.take.2
      ledger := kept.ledger.append { accepted := [], removed := kept.queue.take.1.toList } }
  | .runNext site worker memory =>
    let start := ({ site with queue := kept.queue }, memory)
    { queue := (Action.stateAfter (worker.runNext start)).1.queue
      ledger := kept.ledger.append (worker.turnLedger start) }
  | .runUntilIdle site worker memory limit =>
    let start := ({ site with queue := kept.queue }, memory)
    { queue := (Action.stateAfter (worker.runUntilIdle limit start)).1.queue
      ledger := kept.ledger.append (worker.drainLedger limit start) }

def run (kept : KeptQueue) (calls : List QueueCall) : KeptQueue :=
  calls.foldl step kept

/-- What was accepted is what was removed and then what is pending, and is what was counted. -/
structure InBalance (kept : KeptQueue) : Prop where
  order : kept.ledger.accepted = kept.ledger.removed ++ kept.queue.pending
  counted : kept.queue.dispatched = kept.ledger.accepted.length

variable {kept : KeptQueue}

theorem exists_moves_step (kept : KeptQueue) (call : QueueCall) :
    ∃ ledger, (kept.step call).ledger = kept.ledger.append ledger ∧
      kept.queue.Moves ledger (kept.step call).queue := by
  cases call with
  | dispatch task => exact ⟨_, rfl, kept.queue.moves_push task⟩
  | takeNext => exact ⟨_, rfl, kept.queue.moves_take⟩
  | runNext site worker memory =>
      exact ⟨_, rfl, worker.moves_runNext { site with queue := kept.queue } memory⟩
  | runUntilIdle site worker memory limit =>
      refine ⟨_, rfl, ?_⟩
      unfold step
      simp only [worker.stateAfter_runUntilIdle]
      exact worker.moves_drain limit { site with queue := kept.queue } memory

theorem inBalance_opening : opening.InBalance :=
  ⟨rfl, rfl⟩

theorem InBalance.step (h : kept.InBalance) (call : QueueCall) : (kept.step call).InBalance := by
  obtain ⟨ledger, hledger, hmoves⟩ := kept.exists_moves_step call
  refine ⟨?order, ?counted⟩
  case order =>
    calc (kept.step call).ledger.accepted
      _ = kept.ledger.removed ++ kept.queue.pending ++ ledger.accepted := by
        rw [hledger, Ledger.append, h.order]
      _ = kept.ledger.removed ++ (ledger.removed ++ (kept.step call).queue.pending) := by
        rw [List.append_assoc, hmoves.order]
      _ = (kept.step call).ledger.removed ++ (kept.step call).queue.pending := by
        rw [hledger, Ledger.append, List.append_assoc]
  case counted =>
    rw [hmoves.counted, h.counted, hledger, Ledger.append, List.length_append]

theorem InBalance.run (h : kept.InBalance) (calls : List QueueCall) : (kept.run calls).InBalance := by
  induction calls generalizing kept with
  | nil => exact h
  | cons call rest ih => exact ih (h.step call)

theorem dispatched_le_step (kept : KeptQueue) (call : QueueCall) :
    kept.queue.dispatched ≤ (kept.step call).queue.dispatched := by
  obtain ⟨ledger, _, hmoves⟩ := kept.exists_moves_step call
  rw [hmoves.counted]
  exact Nat.le_add_right _ _

theorem dispatched_le_run (kept : KeptQueue) (calls : List QueueCall) :
    kept.queue.dispatched ≤ (kept.run calls).queue.dispatched := by
  induction calls generalizing kept with
  | nil => exact Nat.le_refl _
  | cons call rest ih => exact Nat.le_trans (kept.dispatched_le_step call) (ih (kept.step call))

/-- A turn that cannot take an execution over enters nothing. -/
theorem step_of_refused {ρ ε : Type} {site : Site} (worker : Worker ρ ε) (memory : ρ)
    {task : QueuedTask} {rest : List QueuedTask} (hpending : kept.queue.pending = task :: rest)
    {error : ExecutorError} {left : Site}
    (hrefused : Executor.hydrate task.context
      { site with queue := { kept.queue with pending := rest } } = .error error left) :
    kept.step (.runNext site worker memory) = kept := by
  have hledger : worker.turnLedger ({ site with queue := kept.queue }, memory) = .blank :=
    worker.turnLedger_of_refused hpending hrefused
  have hrun : worker.runNext ({ site with queue := kept.queue }, memory) =
      .error error ({ left with queue := kept.queue }, memory) :=
    worker.runNext_of_refused hpending hrefused
  unfold step
  simp only [hledger, hrun, Ledger.append_blank]
  rfl

/-- Whoever calls whatever, the tasks that were accepted are those that were removed for good and then
those that are pending, in this order. They are what is counted, and the count never falls. A turn that
cannot take the execution of the oldest task over fails and leaves the queue as it was. -/
theorem run_conserves (calls : List QueueCall) :
    (opening.run calls).InBalance ∧
      (∀ later, (opening.run calls).queue.dispatched ≤
        (opening.run (calls ++ later)).queue.dispatched) ∧
      ∀ {ρ ε : Type} (site : Site) (worker : Worker ρ ε) (memory : ρ) (task : QueuedTask)
        (rest : List QueuedTask) (error : ExecutorError) (left : Site),
        (opening.run calls).queue.pending = task :: rest →
        Executor.hydrate task.context
            { site with queue := { (opening.run calls).queue with pending := rest } } =
          .error error left →
        worker.runNext ({ site with queue := (opening.run calls).queue }, memory) =
            .error error ({ left with queue := (opening.run calls).queue }, memory) ∧
          (opening.run calls).step (.runNext site worker memory) = opening.run calls := by
  refine ⟨inBalance_opening.run calls, ?_, ?_⟩
  · intro later
    have happend : opening.run (calls ++ later) = (opening.run calls).run later :=
      List.foldl_append
    rw [happend]
    exact (opening.run calls).dispatched_le_run later
  · intro ρ ε site worker memory task rest error left hpending hrefused
    exact ⟨worker.runNext_of_refused hpending hrefused, step_of_refused worker memory hpending hrefused⟩

/-- A task without a context that anyone could take over from. -/
def stray (resource : String) : QueuedTask :=
  { resource
    input := .null
    context := .empty }

theorem run_conserves_stray :
    (opening.run [.dispatch (stray "A"), .dispatch (stray "B")]).step
        (.runNext (.fresh true) (.reporting (.ok .null)) ()) =
      opening.run [.dispatch (stray "A"), .dispatch (stray "B")] ∧
    (opening.run [.dispatch (stray "A"), .dispatch (stray "B"),
      .runUntilIdle (.fresh true) (.reporting (.ok .null)) () 5, .takeNext]).InBalance := by
  refine ⟨?_, (run_conserves _).1⟩
  exact ((run_conserves [.dispatch (stray "A"), .dispatch (stray "B")]).2.2 (.fresh true)
    (.reporting (.ok .null)) () (stray "A") [stray "B"]
    (.context (.missingKey Executor.versionKey)) _ rfl rfl).2

end KeptQueue

end Workflow
