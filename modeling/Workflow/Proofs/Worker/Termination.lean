import Workflow.Proofs.Definition.Paths
import Workflow.Proofs.Worker.Turns

/-!
# Machines without a way back finish

In a machine without a cycle no task is ahead of itself. A run then never comes back to a task that it
has done, whatever its worker reports, so it is over before it has done more tasks than there are.
-/

namespace Workflow

namespace Worker

variable {ρ ε : Type} {worker : Worker ρ ε} {machine : Machine} {start : Stage} {memory : ρ}
  {progress : Progress}

/-- A run of up to `limit` tasks that takes the execution of a stage, which has come to `progress`, to
its result, and does none of the tasks ahead twice. -/
structure Finishes (worker : Worker ρ ε) (machine : Machine) (limit : Nat) (start : Stage) (memory : ρ)
    (progress : Progress) (outcomes : List Outcome) (result : ExecutionResult) (last : Stage)
    (rest : ρ) : Prop where
  drained : worker.drain limit (start.site, memory) = .ok outcomes (last.site, rest)
  runs : last.site.Runs machine last.executor (.done result)
  executionId : last.executor.executionId = start.executor.executionId
  central : last.site.central = start.site.central
  left : ((worker.turnsOf limit (start.site, memory)).map (·.left)).getLastD start = last
  counted : outcomes.length = (worker.turnsOf limit (start.site, memory)).length
  ended : (progress.outcome :: outcomes).getLast? = some (.finished result)
  plainly : result.status = .succeeded ∨ result.status = .failed
  once : ((worker.turnsOf limit (start.site, memory)).map (·.hand.name)).Nodup
  ahead : ∀ turn ∈ worker.turnsOf limit (start.site, memory), turn.hand.name ∈ progress.ahead machine

theorem finishes_of_done {result : ExecutionResult}
    (h : start.site.Runs machine start.executor (.done result))
    (hplainly : (Progress.done result).EndsPlainly) (limit : Nat) :
    worker.Finishes machine limit start memory (.done result) [] result start memory := by
  have hturns := worker.turnsOf_of_idle memory h.queue limit
  refine ⟨drain_of_idle h.queue limit, h, rfl, rfl, ?_, ?_, rfl, hplainly result rfl, ?_, ?_⟩ <;>
    simp [hturns]

/-- A turn in front of a run that finishes, if its task is not ahead any more. -/
theorem Finishes.after_turn {hand : InHand} {report : Except String Json} {taken rest : ρ}
    {outcomes : List Outcome} {result : ExecutionResult} {left last : Stage} {limit : Nat}
    {name resource : String} {payload : Json}
    (h : worker.Finishes machine limit left taken progress outcomes result last rest)
    (hhand : start.site.inHand? = some hand) (hname : hand.name = name)
    (hreport : worker.perform hand.task.resource hand.task.input memory = (report, taken))
    (hleft : Stage.recordReport hand.name hand.state report hand.stage = .ok progress.outcome left)
    (hid : left.executor.executionId = start.executor.executionId)
    (hcentral : left.site.central = start.site.central)
    (hself : name ∈ machine.tasksFrom name) (hpassed : name ∉ progress.ahead machine)
    (hahead : progress.ahead machine ⊆ machine.tasksFrom name) :
    worker.Finishes machine (limit + 1) start memory (.pending name resource payload)
      (progress.outcome :: outcomes) result last rest := by
  have hturns := worker.turnsOf_of_recorded hhand hreport hleft limit
  refine ⟨?_, h.runs, h.executionId.trans hid, h.central.trans hcentral, ?_, ?_, ?_, h.plainly, ?_, ?_⟩
  · rw [drain_of_some _ (worker.runNext_of_recorded hhand hreport hleft), Action.bind_of_ok h.drained]
    rfl
  · rw [hturns, List.map_cons, List.getLastD_cons]
    exact h.left
  · rw [hturns, List.length_cons, List.length_cons, h.counted]
  · rw [List.getLast?_cons_cons]
    exact h.ended
  · rw [hturns, List.map_cons, List.nodup_cons, hname]
    refine ⟨?_, h.once⟩
    intro hmem
    obtain ⟨turn, hturn, heq⟩ := List.mem_map.mp hmem
    rw [← heq] at hpassed
    exact hpassed (h.ahead turn hturn)
  · intro turn hturn
    rw [hturns] at hturn
    rcases List.mem_cons.mp hturn with rfl | hlater
    · rw [hname]
      exact hself
    · exact hahead (h.ahead turn hlater)

/-- With a limit that no task ahead exceeds, a run finishes. -/
theorem exists_finishes (worker : Worker ρ ε) (memory : ρ) (hvalid : machine.violations = [])
    (hacyclic : machine.Acyclic) (h : start.site.Runs machine start.executor progress)
    (hplainly : progress.EndsPlainly) (hreach : progress.ahead machine ⊆ machine.reachableTasks)
    {limit : Nat} (hlimit : (progress.ahead machine).ncard ≤ limit) :
    ∃ outcomes result last rest,
      worker.Finishes machine limit start memory progress outcomes result last rest := by
  -- Each turn uses up one of the limit, and leaves one task less ahead.
  induction limit generalizing start progress memory with
  | zero =>
      cases progress with
      | done result => exact ⟨_, _, _, _, finishes_of_done h hplainly 0⟩
      | pending name resource payload =>
          obtain ⟨task, htask, _⟩ := h.isAt name resource payload rfl
          have hempty := (Set.ncard_eq_zero (machine.finite_tasksFrom name)).mp (Nat.le_zero.mp hlimit)
          have hself := Machine.mem_tasksFrom_self htask
          rw [hempty] at hself
          cases hself
  | succ limit ih =>
      cases progress with
      | done result => exact ⟨_, _, _, _, finishes_of_done h hplainly _⟩
      | pending name resource payload =>
          obtain ⟨hand, hhand, _, _, hname, htask, hturn⟩ := h.exists_turn hvalid
          cases hreport : worker.perform hand.task.resource hand.task.input memory with
          | mk report taken =>
              obtain ⟨progress, left, hprogress, hleft, hruns, hid, hcentral⟩ := hturn report
              have hself : name ∈ machine.tasksFrom name := Machine.mem_tasksFrom_self htask
              have hreached : machine.Reachable name := Machine.reachable_of_mem (hreach hself)
              have hahead := Machine.ahead_of_complete? htask hprogress
              have hfewer := hacyclic.ncard_ahead_lt htask hprogress hreached
              change (machine.tasksFrom name).ncard ≤ limit + 1 at hlimit
              obtain ⟨outcomes, result, last, rest, hlater⟩ :=
                ih taken hruns (Machine.endsPlainly_of_complete? hprogress)
                  (hahead.trans hreach) (by omega)
              exact ⟨_, result, last, rest, hlater.after_turn hhand hname hreport hleft hid hcentral
                hself (hacyclic.notMem_ahead htask hprogress hreached) hahead⟩

theorem Finishes.length_le {outcomes : List Outcome} {result : ExecutionResult} {last : Stage}
    {rest : ρ} {limit : Nat}
    (h : worker.Finishes machine limit start memory progress outcomes result last rest)
    (hfinite : (progress.ahead machine).Finite) :
    outcomes.length ≤ (progress.ahead machine).ncard := by
  classical
  let names := (worker.turnsOf limit (start.site, memory)).map (·.hand.name)
  have hsubset : (names.toFinset : Set String) ⊆ progress.ahead machine := by
    intro name hmem
    rw [Finset.mem_coe, List.mem_toFinset] at hmem
    obtain ⟨turn, hturn, rfl⟩ := List.mem_map.mp hmem
    exact h.ahead turn hturn
  calc outcomes.length
    _ = names.length := by rw [h.counted, List.length_map]
    _ = names.toFinset.card := (List.toFinset_card_of_nodup h.once).symm
    _ = (names.toFinset : Set String).ncard := (Set.ncard_coe_finset _).symm
    _ ≤ (progress.ahead machine).ncard := Set.ncard_le_ncard hsubset hfinite

theorem Finishes.runUntilIdle_eq {outcomes : List Outcome} {result : ExecutionResult} {last : Stage}
    {rest : ρ} {limit : Nat}
    (h : worker.Finishes machine limit start memory progress outcomes result last rest) :
    worker.runUntilIdle limit (start.site, memory) = .ok outcomes (last.site, rest) := by
  have hqueue : last.site.queue.pending = [] := h.runs.queue
  rw [runUntilIdle, Action.bind_of_ok h.drained, Action.bind_of_ok (Action.get_apply _)]
  simp only [hqueue]
  rfl

/-- A valid machine without a cycle is run to its end by any worker, if the limit is no less than the
number of tasks that can be reached. No task is done twice, so there are no more outcomes than tasks; the
queue is empty in the end, and the execution has succeeded or failed, at the stage that the last turn has
left as in the site's own table. -/
theorem runUntilIdle_finishes (hvalid : machine.violations = []) (hacyclic : machine.Acyclic)
    (central : Bool) (input : Json) (worker : Worker ρ ε) (memory : ρ) {limit : Nat}
    (hlimit : machine.reachableTasks.ncard ≤ limit) :
    ∃ (executor : Executor) (opened : Site) (outcome : Outcome) (dispatched last : Stage)
      (outcomes : List Outcome) (result : ExecutionResult) (rest : ρ),
      Executor.create machine (Site.fresh central) = .ok executor opened ∧
      Stage.dispatch input { executor, site := opened } = .ok outcome dispatched ∧
      worker.runUntilIdle limit (dispatched.site, memory) = .ok outcomes (last.site, rest) ∧
      (memoryAfter (worker.recording.runUntilIdle limit (dispatched.site, memory, []))).2 =
        (worker.turnsOf limit (dispatched.site, memory)).map (·.hand.call) ∧
      ((worker.turnsOf limit (dispatched.site, memory)).map (·.hand.name)).Nodup ∧
      (∀ turn ∈ worker.turnsOf limit (dispatched.site, memory),
        turn.hand.name ∈ machine.reachableTasks) ∧
      outcomes.length ≤ machine.reachableTasks.ncard ∧
      last.site.queue.pending = [] ∧
      ((worker.turnsOf limit (dispatched.site, memory)).map (·.left)).getLastD dispatched = last ∧
      last.executor.executionId = executor.executionId ∧
      Stage.current last = .ok (none, some result) last ∧
      (central = true → Stage.current { dispatched with site := last.site } =
        .ok (none, some result) { dispatched with site := last.site }) ∧
      (outcome :: outcomes).getLast? = some (.finished result) ∧
      (result.status = .succeeded ∨ result.status = .failed) := by
  obtain ⟨progress, executor, opened, dispatched, hprogress, hcreate, hdispatch, hruns, hid, hcentral⟩ :=
    Site.exists_runs_fresh hvalid central input
  have hahead : progress.ahead machine ⊆ machine.reachableTasks := Machine.ahead_of_enter? hprogress
  have hfinite : machine.reachableTasks.Finite := machine.finite_tasksFrom machine.startAt
  have hfew : (progress.ahead machine).ncard ≤ machine.reachableTasks.ncard :=
    Set.ncard_le_ncard hahead hfinite
  obtain ⟨outcomes, result, last, rest, hfinishes⟩ :=
    exists_finishes worker memory hvalid hacyclic hruns (Machine.endsPlainly_of_enter? hprogress)
      hahead (hfew.trans hlimit)
  have hshows : last.site.Shows dispatched.executor (.done result) := by
    apply hfinishes.runs.shows hfinishes.executionId.symm
    rw [hfinishes.central]
    exact hruns.kept
  obtain ⟨id, hstands⟩ := hfinishes.runs.stands
  refine ⟨executor, opened, progress.outcome, dispatched, last, outcomes, result, rest, hcreate,
    hdispatch, hfinishes.runUntilIdle_eq, worker.calls_runUntilIdle limit _ memory, hfinishes.once,
    fun turn hturn => hahead (hfinishes.ahead turn hturn),
    (hfinishes.length_le (hfinite.subset hahead)).trans hfew, hshows.1, hfinishes.left,
    hfinishes.executionId.trans hid, Stage.current_of_recorded hstands.recorded, ?_, hfinishes.ended,
    hfinishes.plainly⟩
  intro htrue
  apply hshows.2
  rw [hfinishes.central, hcentral, htrue]

/-- Nothing but errors leads through the work and its mending to a failure. -/
theorem runUntilIdle_detour_finishes :
    Machine.detour.violations = [] ∧ Machine.detour.Acyclic ∧
    Machine.detour.reachableTasks.ncard ≤ 3 ∧
    ∃ (dispatched : Stage) (site : Site) (outcomes : List Outcome) (result : ExecutionResult),
      Worker.hopeless.runUntilIdle 3 (dispatched.site, ()) = .ok outcomes (site, ()) ∧
      ((Worker.hopeless.turnsOf 3 (dispatched.site, ())).map (·.hand.name)).Nodup ∧
      outcomes.length ≤ 3 ∧ site.queue.pending = [] ∧
      Stage.current { dispatched with site } = .ok (none, some result) { dispatched with site } ∧
      (result.status = .succeeded ∨ result.status = .failed) := by
  refine ⟨Machine.violations_detour, Machine.acyclic_detour, Machine.ncard_reachableTasks_detour_le, ?_⟩
  obtain ⟨_, _, _, dispatched, last, outcomes, result, _, _, _, hrun, _, honce, _, hlength, hqueue, _, _,
      _, hcurrent, _, hstatus⟩ :=
    runUntilIdle_finishes Machine.violations_detour Machine.acyclic_detour true .null hopeless ()
      Machine.ncard_reachableTasks_detour_le
  exact ⟨dispatched, last.site, outcomes, result, hrun, honce,
    hlength.trans Machine.ncard_reachableTasks_detour_le, hqueue, hcurrent rfl, hstatus⟩

end Worker

end Workflow
