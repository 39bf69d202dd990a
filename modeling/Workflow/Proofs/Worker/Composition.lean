import Workflow.Proofs.Definition.Paths
import Workflow.Proofs.Queue.Ledger

/-!
# Runs one after the other

A run that has come to its limit can be taken up where it stopped. As long as no turn fails, two runs do
what one run does that has both limits together: the same tasks, one turn each, whichever of the two a
task falls into, and also where the queue is empty early.
-/

namespace Workflow

namespace Worker

variable {ρ ε : Type} (worker : Worker ρ ε) {start middle last : Site × ρ}
  {done later : List (QueuedTask × Outcome)} {limit a b : Nat}

/-- Some turns, none of which fails, with the tasks that are done in them and what comes of each. -/
inductive Does : Site × ρ → List (QueuedTask × Outcome) → Site × ρ → Prop
  | nothing (start : Site × ρ) : Does start [] start
  | task {start next last : Site × ρ} {task : QueuedTask} {waiting : List QueuedTask}
      {outcome : Outcome} {done : List (QueuedTask × Outcome)}
      (hpending : start.1.queue.pending = task :: waiting)
      (hturn : worker.runNext start = .ok (some outcome) next) (hrest : Does next done last) :
      Does start ((task, outcome) :: done) last

/-- Whether no turn fails that a run with this limit takes. -/
def Unfailing (limit : Nat) (start : Site × ρ) : Prop :=
  ∀ done last, worker.Does start done last → done.length < limit →
    ∃ answer after, worker.runNext last = .ok answer after

/-- The turns after which a run with this limit stops. -/
structure Completes (limit : Nat) (start : Site × ρ) (done : List (QueuedTask × Outcome))
    (last : Site × ρ) : Prop where
  does : worker.Does start done last
  within : done.length ≤ limit
  stopped : done.length = limit ∨ last.1.queue.pending = []

/-- The turns of a run that leaves no task. -/
structure WorksOff (limit : Nat) (start : Site × ρ) (done : List (QueuedTask × Outcome))
    (last : Site × ρ) : Prop where
  does : worker.Does start done last
  within : done.length ≤ limit
  idle : last.1.queue.pending = []

/-- What a run calls the worker with. -/
def callsOf (limit : Nat) (start : Site × ρ) : List Call :=
  (memoryAfter (worker.recording.runUntilIdle limit (start.1, start.2, []))).2

/-- What a run answers that has stopped. -/
def answer (limit : Nat) (outcomes : List Outcome) (last : Site × ρ) :
    EStateM.Result ExecutorError (Site × ρ) (List Outcome) :=
  match last.1.queue.pending with
  | [] => .ok outcomes last
  | task :: _ =>
    .error (.component (.dispatchFailed task.resource s!"still pending after {limit} tasks")) last

variable {worker}

section Turn

/-- A turn has an outcome if there was work in hand and the report of it could be recorded. -/
theorem exists_inHand_of_turn {outcome : Outcome}
    (h : worker.runNext start = .ok (some outcome) middle) :
    ∃ hand report rest left, start.1.inHand? = some hand ∧
      worker.perform hand.task.resource hand.task.input start.2 = (report, rest) ∧
      Stage.recordReport hand.name hand.state report hand.stage = .ok outcome left ∧
      middle = (left.site, rest) := by
  obtain ⟨site, memory⟩ := start
  cases hhand : site.inHand? with
  | none =>
      obtain ⟨after, hrun | ⟨error, hrun⟩⟩ := worker.runNext_of_emptyHanded hhand memory <;>
        cases hrun.symm.trans h
  | some hand =>
      cases hreport : worker.perform hand.task.resource hand.task.input memory with
      | mk report rest =>
          cases hleft : Stage.recordReport hand.name hand.state report hand.stage with
          | error error left =>
              cases (worker.runNext_of_unrecorded hhand hreport hleft).symm.trans h
          | ok found left =>
              cases (worker.runNext_of_recorded hhand hreport hleft).symm.trans h
              exact ⟨hand, report, rest, left, rfl, hreport, hleft, rfl⟩

theorem exists_pending_of_turn {outcome : Outcome}
    (h : worker.runNext start = .ok (some outcome) middle) :
    ∃ task waiting, start.1.queue.pending = task :: waiting := by
  obtain ⟨hand, _, _, _, hhand, _⟩ := exists_inHand_of_turn h
  obtain ⟨waiting, _, _, hpending, _⟩ := Site.of_inHand? hhand
  exact ⟨hand.task, waiting, hpending⟩

/-- A turn without an outcome and without an error has found no task. -/
theorem pending_eq_nil_of_turn (h : worker.runNext start = .ok none middle) :
    start.1.queue.pending = [] := by
  obtain ⟨site, memory⟩ := start
  cases hpending : site.queue.pending with
  | nil => rfl
  | cons task rest =>
      cases hhydrate : Executor.hydrate task.context
          { site with queue := { site.queue with pending := rest } } with
      | error error left => cases (worker.runNext_of_refused hpending hhydrate).symm.trans h
      | ok executor taken =>
          unfold runNext at h
          simp only [Queue.take_of_pending hpending, hhydrate] at h
          cases hrun : worker.runTask task.resource task.input ({ executor, site := taken }, memory) <;>
            simp only [hrun] at h <;> cases h

/-- The task that a turn does is the one that it takes for good. -/
theorem removed_of_turn {task : QueuedTask} {waiting : List QueuedTask} {outcome : Outcome}
    (hpending : start.1.queue.pending = task :: waiting)
    (h : worker.runNext start = .ok (some outcome) middle) :
    (worker.turnLedger start).removed = [task] := by
  obtain ⟨site, memory⟩ := start
  cases hhydrate : Executor.hydrate task.context
      { site with queue := { site.queue with pending := waiting } } with
  | error error left => cases (worker.runNext_of_refused hpending hhydrate).symm.trans h
  | ok executor taken =>
      unfold turnLedger
      simp only [Queue.take_of_pending hpending, hhydrate]
      cases worker.runTask task.resource task.input ({ executor, site := taken }, memory) <;> rfl

end Turn

section Does

theorem Does.append (h : worker.Does start done middle) (hlater : worker.Does middle later last) :
    worker.Does start (done ++ later) last := by
  induction h with
  | nothing start => exact hlater
  | task hpending hturn _ ih => exact .task hpending hturn (ih hlater)

theorem Does.eq_of_idle (h : worker.Does start done last) (hidle : start.1.queue.pending = []) :
    done = [] ∧ last = start := by
  cases h with
  | nothing start => exact ⟨rfl, rfl⟩
  | task hpending => cases hidle.symm.trans hpending

theorem Does.drain (h : worker.Does start done last) {outcomes : List Outcome} {stop : Site × ρ}
    (hrest : worker.drain limit last = .ok outcomes stop) :
    worker.drain (done.length + limit) start = .ok (done.map (·.2) ++ outcomes) stop := by
  induction h with
  | nothing start =>
      rw [List.length_nil, Nat.zero_add]
      exact hrest
  | task hpending hturn _ ih =>
      rw [List.length_cons, Nat.add_right_comm, drain_of_some worker hturn]
      exact Action.bind_of_ok (ih hrest) _

theorem Does.turnsOf (h : worker.Does start done last) (limit : Nat) :
    (worker.turnsOf (done.length + limit) start).map (·.hand.task) =
      done.map (·.1) ++ (worker.turnsOf limit last).map (·.hand.task) := by
  induction h with
  | nothing start => rw [List.length_nil, Nat.zero_add, List.map_nil, List.nil_append]
  | @task start next last task waiting outcome done hpending hturn hrest ih =>
      obtain ⟨hand, report, rest, left, hhand, hreport, hleft, rfl⟩ := exists_inHand_of_turn hturn
      obtain ⟨others, _, _, hfront, _⟩ := Site.of_inHand? hhand
      obtain ⟨rfl, -⟩ := List.cons.inj (hfront.symm.trans hpending)
      obtain ⟨site, memory⟩ := start
      rw [List.length_cons, Nat.add_right_comm, worker.turnsOf_of_recorded hhand hreport hleft,
        List.map_cons, ih]
      rfl

/-- The tasks that are done are those that were waiting and then those that were handed in, from the
front on. -/
theorem Does.exists_moves (h : worker.Does start done last) :
    ∃ accepted, start.1.queue.Moves { accepted, removed := done.map (·.1) } last.1.queue := by
  induction h with
  | nothing start => exact ⟨[], Queue.Moves.refl _⟩
  | @task start next last task waiting outcome done hpending hturn hrest ih =>
      obtain ⟨accepted, hmoves⟩ := ih
      have hfirst := worker.moves_runNext start.1 start.2
      rw [hturn] at hfirst
      have hremoved := removed_of_turn hpending hturn
      refine ⟨(worker.turnLedger start).accepted ++ accepted, ?_⟩
      have hboth := hfirst.trans hmoves
      unfold Ledger.append at hboth
      rw [hremoved] at hboth
      exact hboth

end Does

section Completes

/-- What is left of the limit finds no task any more. -/
theorem Completes.exists_left (h : worker.Completes limit start done last) :
    ∃ left, limit = done.length + left ∧ (left = 0 ∨ last.1.queue.pending = []) := by
  obtain ⟨left, rfl⟩ := Nat.exists_eq_add_of_le h.within
  exact ⟨left, rfl, h.stopped.imp_left fun hfull => (Nat.left_eq_add.mp hfull)⟩

theorem Completes.drain (h : worker.Completes limit start done last) :
    worker.drain limit start = .ok (done.map (·.2)) last := by
  obtain ⟨left, rfl, hleft⟩ := h.exists_left
  have hrest : worker.drain left last = .ok [] last := by
    rcases hleft with rfl | hidle
    · rfl
    · exact drain_of_idle hidle left
  rw [h.does.drain hrest, List.append_nil]

theorem Completes.callsOf (h : worker.Completes limit start done last) :
    worker.callsOf limit start = done.map fun (task, _) => (task.resource, task.input) := by
  obtain ⟨left, rfl, hleft⟩ := h.exists_left
  have hrest : worker.turnsOf left last = [] := by
    rcases hleft with rfl | hidle
    · rfl
    · exact worker.turnsOf_of_idle last.2 hidle left
  have htasks := h.does.turnsOf left
  rw [hrest, List.map_nil, List.append_nil] at htasks
  calc worker.callsOf (done.length + left) start
    _ = (worker.turnsOf (done.length + left) start).map (·.hand.call) :=
      worker.calls_runUntilIdle _ start.1 start.2
    _ = ((worker.turnsOf (done.length + left) start).map (·.hand.task)).map
          fun task => (task.resource, task.input) := by
      rw [List.map_map]
      rfl
    _ = done.map fun (task, _) => (task.resource, task.input) := by
      rw [htasks, List.map_map]
      rfl

theorem Completes.runUntilIdle (h : worker.Completes limit start done last) :
    worker.runUntilIdle limit start = answer limit (done.map (·.2)) last := by
  unfold Worker.runUntilIdle answer
  rw [Action.bind_of_ok h.drain, Action.bind_of_ok (Action.get_apply _)]
  cases hpending : last.1.queue.pending <;> simp only [hpending] <;> rfl

theorem Completes.add (h : worker.Completes a start done middle)
    (hlater : worker.Completes b middle later last) :
    worker.Completes (a + b) start (done ++ later) last := by
  have hlength : (done ++ later).length = done.length + later.length := List.length_append
  have hwithin := h.within
  have hlaterWithin := hlater.within
  refine ⟨h.does.append hlater.does, by omega, ?_⟩
  rcases h.stopped with hfull | hidle
  · rcases hlater.stopped with hlaterFull | hlaterIdle
    · exact .inl (by omega)
    · exact .inr hlaterIdle
  · -- Nothing was left for the second run.
    obtain ⟨-, rfl⟩ := hlater.does.eq_of_idle hidle
    exact .inr hidle

/-- A run stops at its limit or at the end of the queue, unless one of its turns fails. -/
theorem completes_or_fails (worker : Worker ρ ε) (limit : Nat) (start : Site × ρ) :
    (∃ done last, worker.Completes limit start done last) ∨
      ∃ done last error after, worker.Does start done last ∧ done.length < limit ∧
        worker.runNext last = .error error after ∧ worker.drain limit start = .error error after := by
  -- The first turn may end the run by itself; otherwise it is put in front of what the rest comes to.
  induction limit generalizing start with
  | zero => exact .inl ⟨[], start, .nothing start, Nat.le_refl _, .inl rfl⟩
  | succ limit ih =>
      cases hturn : worker.runNext start with
      | error error after =>
          exact .inr ⟨[], start, error, after, .nothing start, Nat.succ_pos limit, hturn,
            Action.bind_of_error hturn _⟩
      | ok found next =>
          cases found with
          | none =>
              exact .inl ⟨[], start, .nothing start, Nat.zero_le _, .inr (pending_eq_nil_of_turn hturn)⟩
          | some outcome =>
              obtain ⟨task, waiting, hpending⟩ := exists_pending_of_turn hturn
              rcases ih next with ⟨done, last, h⟩ | ⟨done, last, error, after, hdoes, hlt, hlast, hdrain⟩
              · refine .inl ⟨_, last, .task hpending hturn h.does, Nat.succ_le_succ h.within, ?_⟩
                exact h.stopped.imp_left (congrArg Nat.succ)
              · refine .inr ⟨_, last, error, after, .task hpending hturn hdoes, Nat.succ_lt_succ hlt,
                  hlast, ?_⟩
                rw [drain_of_some worker hturn]
                exact Action.bind_of_error hdrain _

theorem Unfailing.exists_completes (h : worker.Unfailing limit start) :
    ∃ done last, worker.Completes limit start done last := by
  rcases completes_or_fails worker limit start with hcompletes | ⟨done, last, _, _, hdoes, hlt, hlast, -⟩
  · exact hcompletes
  · obtain ⟨found, after, hok⟩ := h done last hdoes hlt
    cases hok.symm.trans hlast

theorem Unfailing.first (h : worker.Unfailing (a + b) start) : worker.Unfailing a start :=
  fun done last hdoes hlt => h done last hdoes (Nat.lt_add_right b hlt)

theorem Unfailing.second (h : worker.Unfailing (a + b) start)
    (hfirst : worker.Completes a start done middle) : worker.Unfailing b middle := by
  intro later last hdoes hlt
  rcases hfirst.stopped with hfull | hidle
  · refine h _ last (hfirst.does.append hdoes) ?_
    rw [List.length_append]
    omega
  · obtain ⟨-, rfl⟩ := hdoes.eq_of_idle hidle
    exact ⟨none, last, runNext_of_idle hidle⟩

theorem answer_eq_ok_iff {outcomes found : List Outcome} {stop : Site × ρ} :
    answer limit outcomes stop = .ok found last ↔
      stop.1.queue.pending = [] ∧ found = outcomes ∧ last = stop := by
  unfold answer
  cases stop.1.queue.pending with
  | nil =>
      rw [EStateM.Result.ok.injEq]
      exact ⟨fun ⟨hfound, hlast⟩ => ⟨rfl, hfound.symm, hlast.symm⟩,
        fun ⟨_, hfound, hlast⟩ => ⟨hfound.symm, hlast.symm⟩⟩
  | cons task rest => exact ⟨fun h => (nomatch h), fun h => (nomatch h.1)⟩

theorem exists_ok_answer_iff {outcomes : List Outcome} :
    (∃ found after, answer limit outcomes last = .ok found after) ↔ last.1.queue.pending = [] :=
  ⟨fun ⟨_, _, h⟩ => (answer_eq_ok_iff.mp h).1,
    fun hidle => ⟨outcomes, last, answer_eq_ok_iff.mpr ⟨hidle, rfl, rfl⟩⟩⟩

/-- A run answers without an error if it leaves no task, and with what came of the tasks. -/
theorem runUntilIdle_eq_ok_iff {outcomes : List Outcome} :
    worker.runUntilIdle limit start = .ok outcomes last ↔
      ∃ done, worker.WorksOff limit start done last ∧ outcomes = done.map (·.2) := by
  constructor
  · intro hrun
    rcases completes_or_fails worker limit start with
      ⟨done, stop, h⟩ | ⟨_, _, error, after, -, -, -, hdrain⟩
    · rw [h.runUntilIdle] at hrun
      obtain ⟨hidle, rfl, rfl⟩ := answer_eq_ok_iff.mp hrun
      exact ⟨done, ⟨h.does, h.within, hidle⟩, rfl⟩
    · unfold runUntilIdle at hrun
      cases (Action.bind_of_error hdrain _).symm.trans hrun
  · rintro ⟨done, ⟨hdoes, hwithin, hidle⟩, rfl⟩
    rw [Completes.runUntilIdle ⟨hdoes, hwithin, .inr hidle⟩]
    exact answer_eq_ok_iff.mpr ⟨hidle, rfl, rfl⟩

theorem stateAfter_answer (limit : Nat) (outcomes : List Outcome) (last : Site × ρ) :
    Action.stateAfter (answer limit outcomes last) = last := by
  unfold answer
  cases last.1.queue.pending <;> rfl

end Completes

section Runs

/-- Any turns with an execution of a valid machine take it on to where the next turn does not fail. -/
theorem Does.exists_runs {machine : Machine} (h : worker.Does start done last)
    (hvalid : machine.violations = []) {executor : Executor} {progress : Progress}
    (hruns : start.1.Runs machine executor progress) :
    ∃ executor progress, last.1.Runs machine executor progress := by
  induction h generalizing executor progress with
  | nothing start => exact ⟨executor, progress, hruns⟩
  | @task start next last task waiting outcome done hpending hturn hrest ih =>
      cases progress with
      | done result => cases hruns.queue.symm.trans hpending
      | pending name resource payload =>
          obtain ⟨_, _, after, _, _, hrun, hafter, _⟩ :=
            @runNext_of_runs _ _ worker _ _ _ start.2 hvalid _ _ _ hruns
          cases hrun.symm.trans hturn
          exact ih hafter

theorem unfailing_of_runs {machine : Machine} (worker : Worker ρ ε) (hvalid : machine.violations = [])
    {executor : Executor} {progress : Progress} (hruns : start.1.Runs machine executor progress)
    (limit : Nat) : worker.Unfailing limit start := by
  intro done last hdoes _
  obtain ⟨executor, progress, hlast⟩ := hdoes.exists_runs hvalid hruns
  cases progress with
  | done result => exact ⟨none, last, runNext_of_idle hlast.queue⟩
  | pending name resource payload =>
      obtain ⟨_, progress, after, _, _, hrun, _⟩ :=
        @runNext_of_runs _ _ worker _ _ _ last.2 hvalid _ _ _ hlast
      exact ⟨some progress.outcome, _, hrun⟩

end Runs

/-- Where no turn fails, a run and then another from where it has stopped leave what one run leaves that
has both limits together, and make the same calls; and the second of them succeeds just if that one does.
The first can only fail for tasks that are left. Whatever the limit, a run succeeds just if that many
turns leave no task. It then tells what came of each task that was done, calls the worker once for each,
and takes them from the front of the queue. -/
theorem runUntilIdle_composes (worker : Worker ρ ε) (a b : Nat) (start : Site × ρ)
    (hquiet : worker.Unfailing (a + b) start) :
    let middle := Action.stateAfter (worker.runUntilIdle a start)
    Action.stateAfter (worker.runUntilIdle b middle) =
        Action.stateAfter (worker.runUntilIdle (a + b) start) ∧
      worker.callsOf (a + b) start = worker.callsOf a start ++ worker.callsOf b middle ∧
      ((∃ outcomes last, worker.runUntilIdle b middle = .ok outcomes last) ↔
        ∃ outcomes last, worker.runUntilIdle (a + b) start = .ok outcomes last) ∧
      (∃ outcomes, worker.runUntilIdle a start = answer a outcomes middle) ∧
      (∀ limit outcomes last, worker.runUntilIdle limit start = .ok outcomes last ↔
        ∃ done, worker.WorksOff limit start done last ∧ outcomes = done.map (·.2)) ∧
      ∀ limit done last, worker.WorksOff limit start done last →
        worker.callsOf limit start = done.map (fun (task, _) => (task.resource, task.input)) ∧
          ∃ handedIn, start.1.queue.pending ++ handedIn = done.map (·.1) := by
  intro middle
  obtain ⟨done, stop, hfirst⟩ := hquiet.first.exists_completes
  have hmiddle : middle = stop := by
    change Action.stateAfter (worker.runUntilIdle a start) = stop
    rw [hfirst.runUntilIdle, stateAfter_answer]
  obtain ⟨later, last, hsecond⟩ := (hquiet.second hfirst).exists_completes
  have hwhole := hfirst.add hsecond
  refine ⟨?state, ?calls, ?succeeds, ⟨done.map (·.2), ?stopped⟩,
    fun limit outcomes last => runUntilIdle_eq_ok_iff, ?order⟩
  case state =>
    rw [hmiddle, hsecond.runUntilIdle, hwhole.runUntilIdle, stateAfter_answer, stateAfter_answer]
  case calls => rw [hmiddle, hwhole.callsOf, hfirst.callsOf, hsecond.callsOf, List.map_append]
  case succeeds =>
    rw [hmiddle, hsecond.runUntilIdle, hwhole.runUntilIdle, exists_ok_answer_iff, exists_ok_answer_iff]
  case stopped => rw [hmiddle, hfirst.runUntilIdle]
  case order =>
    intro limit done last h
    refine ⟨Completes.callsOf ⟨h.does, h.within, .inr h.idle⟩, ?_⟩
    obtain ⟨handedIn, hmoves⟩ := h.does.exists_moves
    have horder := hmoves.order
    rw [h.idle, List.append_nil] at horder
    exact ⟨handedIn, horder⟩

/-- Work falls into one run and its mending into the next. -/
theorem runUntilIdle_composes_detour :
    ∃ start : Site × Unit, hopeless.Unfailing (1 + 1) start ∧
      let middle := Action.stateAfter (hopeless.runUntilIdle 1 start)
      Action.stateAfter (hopeless.runUntilIdle 1 middle) =
          Action.stateAfter (hopeless.runUntilIdle 2 start) ∧
        hopeless.callsOf 1 start ++ hopeless.callsOf 1 middle =
          [("saw", .null), ("glue", .emptyObject)] := by
  obtain ⟨progress, executor, opened, dispatched, hprogress, _, _, hruns, _⟩ :=
    Site.exists_runs_fresh Machine.violations_detour true .null
  obtain rfl : .pending "Saw" "saw" .null = progress := Option.some.inj hprogress
  have hquiet : hopeless.Unfailing (1 + 1) (dispatched.site, ()) :=
    unfailing_of_runs hopeless Machine.violations_detour hruns 2
  obtain ⟨hstate, hcalls, _⟩ := runUntilIdle_composes hopeless 1 1 (dispatched.site, ()) hquiet
  refine ⟨(dispatched.site, ()), hquiet, hstate, ?_⟩
  rw [← hcalls]
  obtain ⟨trace, rest, after, last, hrun, hidle, _⟩ :=
    @runUntilIdle_of_runs _ _ hopeless.recording _ _ _ _ ((), []) Machine.violations_detour hruns 2
  obtain ⟨rfl, rfl⟩ := Prod.mk.inj (Option.some.inj hrun)
  unfold callsOf
  rw [hidle]
  rfl

end Worker

end Workflow
