import Workflow.Proofs.Worker.Refinement

/-!
# The turns of a run

A run is turn after turn, each of them at the site that the one before it has left. The tasks in hand
in these turns are what the worker is called with, no more and no less.
-/

namespace Workflow

/-- A task that was in hand, and the stage that the report of it has left. -/
structure Turn where
  hand : InHand
  left : Stage

namespace Worker

variable {ρ ε : Type} (worker : Worker ρ ε) {site : Site} {hand : InHand} {memory rest : ρ}
  {report : Except String Json} {outcome : Outcome} {left : Stage}

/-- The turns of a worker that runs tasks until there is none, but no more than `limit` of them. A
report that cannot be recorded ends the run. -/
def turnsOf : (limit : Nat) → Site × ρ → List Turn
  | 0, _ => []
  | limit + 1, (site, memory) =>
    match site.inHand? with
    | none => []
    | some hand =>
      let (report, memory) := worker.perform hand.task.resource hand.task.input memory
      match Stage.recordReport hand.name hand.state report hand.stage with
      | .ok _ left => { hand, left } :: turnsOf limit (left.site, memory)
      | .error _ left => [{ hand, left }]

theorem turnsOf_of_idle (memory : ρ) (h : site.queue.pending = []) (limit : Nat) :
    worker.turnsOf limit (site, memory) = [] := by
  cases limit with
  | zero => rfl
  | succ limit =>
      have hhand : site.inHand? = none := by
        unfold Site.inHand? Queue.take
        simp only [h]
      rw [turnsOf]
      simp only [hhand]

section InHand

variable (hhand : site.inHand? = some hand)
  (hreport : worker.perform hand.task.resource hand.task.input memory = (report, rest))

include hhand hreport

theorem turnsOf_of_recorded
    (hleft : Stage.recordReport hand.name hand.state report hand.stage = .ok outcome left)
    (limit : Nat) :
    worker.turnsOf (limit + 1) (site, memory) =
      { hand, left } :: worker.turnsOf limit (left.site, rest) := by
  rw [turnsOf]
  simp only [hhand, hreport, hleft]

end InHand

/-- A turn calls a worker for what it has in hand and for nothing else. -/
theorem calls_runNext (memory : ρ) (calls : List Call) :
    (memoryAfter (worker.recording.runNext (site, memory, calls))).2 =
      calls ++ (site.inHand?.map (·.call)).toList := by
  cases hhand : site.inHand? with
  | none =>
      obtain ⟨after, hrun | ⟨error, hrun⟩⟩ :=
        worker.recording.runNext_of_emptyHanded hhand (memory, calls)
      · rw [hrun]
        exact (List.append_nil calls).symm
      · rw [hrun]
        exact (List.append_nil calls).symm
  | some hand =>
      rw [worker.recording.runNext_of_inHand hhand, memoryAfter_finish, perform_recording]
      rfl

theorem drain_of_some {after : Site}
    (h : worker.runNext (site, memory) = .ok (some outcome) (after, rest)) (limit : Nat) :
    worker.drain (limit + 1) (site, memory) =
      (worker.drain limit >>= fun outcomes => pure (outcome :: outcomes)) (after, rest) := by
  rw [drain, Action.bind_of_ok h]

theorem memoryAfter_eq {α : Type} (result : EStateM.Result ExecutorError (Site × ρ) α) :
    memoryAfter result = (Action.stateAfter result).2 := by
  cases result <;> rfl

/-- A run calls a worker for the tasks in hand in its turns, in this order, and for nothing else. -/
theorem calls_drain (limit : Nat) (site : Site) (memory : ρ) (calls : List Call) :
    (memoryAfter (worker.recording.drain limit (site, memory, calls))).2 =
      calls ++ (worker.turnsOf limit (site, memory)).map (·.hand.call) := by
  induction limit generalizing site memory calls with
  | zero => exact (List.append_nil calls).symm
  | succ limit ih =>
      cases hhand : site.inHand? with
      | none =>
          have hturns : worker.turnsOf (limit + 1) (site, memory) = [] := by
            rw [turnsOf]
            simp only [hhand]
          rw [hturns, List.map_nil, List.append_nil, drain]
          obtain ⟨after, hrun | ⟨error, hrun⟩⟩ :=
            worker.recording.runNext_of_emptyHanded hhand (memory, calls)
          · rw [Action.bind_of_ok hrun]
            rfl
          · rw [Action.bind_of_error hrun]
            rfl
      | some hand =>
          cases hreport : worker.perform hand.task.resource hand.task.input memory with
          | mk report rest =>
              have hrecorded : worker.recording.perform hand.task.resource hand.task.input
                  (memory, calls) = (report, rest, calls ++ [hand.call]) := by
                rw [perform_recording, hreport]
                rfl
              cases hleft : Stage.recordReport hand.name hand.state report hand.stage with
              | ok outcome left =>
                  rw [drain_of_some _ (worker.recording.runNext_of_recorded hhand hrecorded hleft),
                    memoryAfter_eq, Action.stateAfter_bind_pure, ← memoryAfter_eq, ih,
                    worker.turnsOf_of_recorded hhand hreport hleft]
                  exact List.append_assoc _ _ _
              | error error left =>
                  rw [drain, Action.bind_of_error
                    (worker.recording.runNext_of_unrecorded hhand hrecorded hleft), turnsOf]
                  simp only [hhand, hreport, hleft]
                  rfl

theorem stateAfter_runUntilIdle (limit : Nat) (start : Site × ρ) :
    Action.stateAfter (worker.runUntilIdle limit start) =
      Action.stateAfter (worker.drain limit start) := by
  unfold runUntilIdle
  cases hdrain : worker.drain limit start with
  | error error after => rw [Action.bind_of_error hdrain]
  | ok outcomes after =>
      rw [Action.bind_of_ok hdrain, Action.bind_of_ok (Action.get_apply _)]
      obtain ⟨site, memory⟩ := after
      cases hpending : site.queue.pending with
      | nil =>
          simp only [hpending]
          rfl
      | cons task tasks =>
          simp only [hpending]
          rfl

theorem calls_runUntilIdle (limit : Nat) (site : Site) (memory : ρ) :
    (memoryAfter (worker.recording.runUntilIdle limit (site, memory, []))).2 =
      (worker.turnsOf limit (site, memory)).map (·.hand.call) := by
  rw [memoryAfter_eq, stateAfter_runUntilIdle, ← memoryAfter_eq, calls_drain, List.nil_append]

end Worker

end Workflow
