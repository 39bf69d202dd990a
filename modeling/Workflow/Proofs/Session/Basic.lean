import Workflow.Proofs.Executor.Phase

/-!
# Sessions

A caller of one site that makes calls in any order: on any executor it was ever given, and on any
context that it exported or that was queued, old ones and the same ones again included. Tasks are
turned away from one call on and accepted from another one on, as the caller says.
-/

namespace Workflow

/-- A worker that reports the same of every task. -/
def Worker.reporting (report : Except String Json) : Worker Unit String :=
  { run := fun _ _ memory => (report, memory)
    code := fun error memory => (error, memory) }

/-- A context that a session has come across: one that was exported or one that was queued, oldest
first. -/
inductive Source where
  | exported (index : Nat)
  | queued (index : Nat)
  deriving DecidableEq

/-- A call. Executors are numbered in the order in which they were given out. -/
inductive Command where
  | create (machine : Machine)
  | dispatch (slot : Nat) (input : Json)
  | runTask (slot : Nat) (resource : String) (input : Json) (report : Except String Json)
  | exportContext (slot : Nat)
  | hydrate (source : Source)
  | current (slot : Nat)
  | definition (slot : Nat)
  /-- What all hand-offs are answered from now on. -/
  | reject (rejection : Option String)

inductive Reply where
  | opened (executionId executorId : String)
  | outcome (outcome : Outcome)
  | context (context : Context)
  | current (state : Option ExecutionState) (result : Option ExecutionResult)
  | definition (machine : Machine)
  | noted

/-- What a call answers. There is no answer if there is nothing to call. -/
abbrev Answer := Option (Except ExecutorError Reply)

structure Session where
  site : Site
  executors : List Executor
  exports : List Context
  /-- The executions that were created, each with its machine. -/
  created : List (String × Machine)

namespace Session

def start (central : Bool) : Session :=
  { site := .fresh central
    executors := []
    exports := []
    created := [] }

/-- The context of a source. -/
def context? (session : Session) : Source → Option Context
  | .exported index => session.exports[index]?
  | .queued index => session.site.queue.pending[index]?.map (·.context)

def stage (session : Session) (executor : Executor) : Stage :=
  { executor
    site := session.site }

/-- The session after a call on an executor. -/
def put (session : Session) (slot : Nat) (stage : Stage) : Session :=
  { session with
    site := stage.site
    executors := session.executors.set slot stage.executor }

/-- The session with one more executor, which was given out at the site. -/
def given (session : Session) (executor : Executor) (site : Site) : Session :=
  { session with
    site
    executors := session.executors ++ [executor] }

variable {α : Type}

/-- A call on the executor with a number. -/
def call (session : Session) (slot : Nat) (action : Action Stage α) (reply : α → Reply) :
    Answer × Session :=
  match session.executors[slot]? with
  | none => (none, session)
  | some executor =>
    match action (session.stage executor) with
    | .ok value stage => (some (.ok (reply value)), session.put slot stage)
    | .error error stage => (some (.error error), session.put slot stage)

def runTask (resource : String) (input : Json) (report : Except String Json) :
    Action Stage Outcome :=
  .onPart (fun stage => (stage, ())) (fun _ (stage, ()) => stage)
    ((Worker.reporting report).runTask resource input)

def exportContext (session : Session) (slot : Nat) : Answer × Session :=
  match session.executors[slot]? with
  | none => (none, session)
  | some executor =>
    match executor.context session.site with
    | .ok context =>
      (some (.ok (.context context)), { session with exports := session.exports ++ [context] })
    | .error error => (some (.error (.context error)), session)

def step (session : Session) : Command → Answer × Session
  | .create machine =>
    match Executor.create machine session.site with
    | .ok executor site =>
      (some (.ok (.opened executor.executionId executor.executorId)),
        { session.given executor site with
          created := session.created ++ [(executor.executionId, machine)] })
    | .error error site => (some (.error error), { session with site })
  | .dispatch slot input => session.call slot (Stage.dispatch input) .outcome
  | .runTask slot resource input report =>
    session.call slot (runTask resource input report) .outcome
  | .exportContext slot => session.exportContext slot
  | .hydrate source =>
    match session.context? source with
    | none => (none, session)
    | some context =>
      match Executor.hydrate context session.site with
      | .ok executor site =>
        (some (.ok (.opened executor.executionId executor.executorId)),
          session.given executor site)
      | .error error site => (some (.error error), { session with site })
  | .current slot => session.call slot Stage.current fun (state, result) => .current state result
  | .definition slot => session.call slot Stage.definition .definition
  | .reject rejection => (some (.ok .noted), { session with site.rejection := rejection })

/-- The answers to a list of calls, and the session after them. -/
def run (session : Session) : List Command → List Answer × Session
  | [] => ([], session)
  | command :: rest =>
    let (answer, next) := session.step command
    let (answers, last) := next.run rest
    (answer :: answers, last)

theorem call_of_absent {session : Session} {slot : Nat} (hslot : session.executors[slot]? = none)
    (action : Action Stage α) (reply : α → Reply) :
    session.call slot action reply = (none, session) := by
  unfold call
  rw [hslot]

end Session

theorem Worker.perform_reporting (report : Except String Json) (resource : String) (input : Json) :
    (Worker.reporting report).perform resource input () = (report, ()) := by
  unfold perform reporting
  cases report <;> rfl

/-- Which worker does the work of a task makes no difference but by what it reports. -/
theorem Worker.runTask_eq_reporting {ρ ε : Type} (worker : Worker ρ ε) (resource : String)
    (input : Json) (stage : Stage) (memory : ρ) :
    Action.onPart (fun stage => (stage, memory)) (fun _ pair => pair.1)
        (worker.runTask resource input) stage =
      Session.runTask resource input (worker.perform resource input memory).1 stage := by
  unfold Session.runTask Action.onPart runTask
  simp only
  cases Stage.taskInFlight stage with
  | error error after => rfl
  | ok found after =>
      simp only [perform_reporting]
      generalize worker.perform resource input memory = done
      obtain ⟨report, rest⟩ := done
      simp only
      cases Stage.recordReport found.1 found.2 report after <;> rfl

namespace Session

variable {stage : Stage} {record : ExecutionRecord} {machine : Machine} {progress : Progress}
  {resource : String} {input : Json} {report : Except String Json}

theorem runTask_of_idle (h : stage.handle.record = .ok record) (hstate : record.state = none) :
    runTask resource input report stage = .error (Stage.idleError record.result) stage := by
  unfold runTask Action.onPart
  rw [Worker.runTask_of_idle h hstate]

theorem runTask_of_atTask (h : stage.Stands record machine) {state : ExecutionState}
    {task : TaskState} (hstate : record.state = some state)
    (htask : machine.state? state.name = some (.task task))
    (hprogress : machine.complete? task report = some progress) :
    runTask resource input report stage =
      Action.leave (progress.answer stage.site.rejection)
        ((stage.logged task.resource state.name (task.reportLine report)).arrived
          (task.landing state.name report).1 (task.landing state.name report).2 record
          progress) := by
  unfold runTask Action.onPart
  rw [Worker.runTask_of_atTask h hstate htask (Worker.perform_reporting report resource input)
    hprogress]
  cases progress.answer stage.site.rejection <;> rfl

theorem moves_runTask (hsound : record.IsSound machine) (hvalid : machine.violations = [])
    (resource : String) (input : Json) (report : Except String Json) :
    Stage.Moves (runTask resource input report) record machine := by
  rcases hsound.report_cases hvalid report with
    hstate | ⟨hresult, state, task, progress, hstate, htask, hprogress, hat⟩
  · refine .stays (.error (Stage.idleError record.result)) ?_ ?_ ?_
    · intro name resource heq
      cases heq
    · intro error heq
      cases heq
      cases record.result <;> exact id
    · intro stage hstands
      exact runTask_of_idle hstands.recorded hstate
  · refine .arrives progress (fun journal =>
      (journal.written task.resource state.name (task.reportLine report)).arrived
        (task.landing state.name report).1 (task.landing state.name report).2 progress)
      hresult hat ?_
    intro stage hstands
    exact ⟨_, runTask_of_atTask hstands hstate htask hprogress,
      (Stage.reaches_arrived _ _ _ _ _).of_logged, Stage.journal_arrived _ _ _ _ _⟩

end Session

end Workflow
