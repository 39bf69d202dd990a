import Workflow.Proofs.Session.Invariant

/-!
# The phases of a session's executions

A session stays sound whatever is called, so that at every moment each executor finds its execution
in exactly one phase, and no call comes across a name that is no task.
-/

namespace Workflow

/-- Whether an answer is none of the errors of a name that is no task. -/
def Answer.IsOrderly (answer : Answer) : Prop :=
  ∀ error, answer = some (.error error) → ¬error.IsMiss

theorem Answer.isOrderly_map {α : Type} {answer : Except ExecutorError α} (reply : α → Reply)
    (h : ∀ error, answer = .error error → ¬error.IsMiss) :
    Answer.IsOrderly (some (answer.map reply)) := by
  intro error heq
  cases answer with
  | ok value => cases heq
  | error found =>
      cases heq
      exact h error rfl

theorem Answer.isOrderly_ok (reply : Reply) : Answer.IsOrderly (some (.ok reply)) := by
  intro error heq
  cases heq

theorem Answer.isOrderly_none : Answer.IsOrderly none := by
  intro error heq
  cases heq

namespace Session

variable {session after : Session} {executor : Executor} {slot : Nat}

/-- What one call keeps. -/
structure Advances (before : Session) (answer : Answer) (after : Session) : Prop where
  orderly : answer.IsOrderly
  sound : after.Sound
  grows : before.Grows after

theorem Advances.stay {answer : Answer} (h : session.Sound) (horderly : answer.IsOrderly) :
    session.Advances answer session :=
  ⟨horderly, h, .refl session⟩

theorem call_of_leave {α : Type} {action : Action Stage α} {stage : Stage}
    {answer : Except ExecutorError α} (hslot : session.executors[slot]? = some executor)
    (h : action (session.stage executor) = Action.leave answer stage) (reply : α → Reply) :
    session.call slot action reply = (some (answer.map reply), session.put slot stage) := by
  unfold call
  rw [hslot]
  simp only
  rw [h]
  cases answer <;> rfl

/-- What is the same for all calls on an executor: there is none, or its execution stands. -/
theorem advances_call {α : Type} {action : Action Stage α} {reply : α → Reply} (h : session.Sound)
    (hcall : ∀ executor record source machine, session.executors[slot]? = some executor →
      session.Follows executor.executionId record source machine →
      (session.stage executor).Stands record machine → machine.violations = [] →
      session.Advances (session.call slot action reply).1 (session.call slot action reply).2) :
    session.Advances (session.call slot action reply).1 (session.call slot action reply).2 := by
  cases hslot : session.executors[slot]? with
  | none =>
      unfold call
      rw [hslot]
      exact .stay h Answer.isOrderly_none
  | some executor =>
      obtain ⟨record, source, machine, hfollows, hstands, hvalid⟩ :=
        (h.executors executor (List.mem_of_getElem? hslot)).stands h
      exact hcall executor record source machine hslot hfollows hstands hvalid

theorem advances_moving {action : Action Stage Outcome} (h : session.Sound)
    (hmoves : ∀ record machine, record.IsSound machine → machine.violations = [] →
      Stage.Moves action record machine) :
    session.Advances (session.call slot action .outcome).1
      (session.call slot action .outcome).2 := by
  apply advances_call h
  intro executor record source machine hslot hfollows hstands hvalid
  cases hmoves record machine hfollows.sound hvalid with
  | stays answer hanswer hmiss hstays =>
      rw [call_of_leave hslot (hstays _ hstands), put_stage hslot]
      exact .stay h (Answer.isOrderly_map _ hmiss)
  | arrives progress write hresult hat harrives =>
      obtain ⟨stage, haction, hreaches, _⟩ := harrives _ hstands
      obtain ⟨hsound, hgrows⟩ := Sound.put_of_reaches hfollows hresult hat hreaches h hslot
      rw [call_of_leave hslot haction]
      exact ⟨Answer.isOrderly_map _ fun _ => Progress.not_isMiss_of_answer, hsound, hgrows⟩

theorem advances_current (h : session.Sound) (slot : Nat) :
    session.Advances (session.step (.current slot)).1 (session.step (.current slot)).2 := by
  apply advances_call h
  intro executor record source machine hslot hfollows hstands hvalid
  have hcurrent : Stage.current (session.stage executor) =
      Action.leave (.ok (record.state, record.result)) (session.stage executor) :=
    Stage.current_of_recorded hstands.recorded
  rw [call_of_leave hslot hcurrent, put_stage hslot]
  exact .stay h (Answer.isOrderly_ok _)

theorem advances_definition (h : session.Sound) (slot : Nat) :
    session.Advances (session.step (.definition slot)).1 (session.step (.definition slot)).2 := by
  apply advances_call h
  intro executor record source machine hslot hfollows hstands hvalid
  have hdefinition : Stage.definition (session.stage executor) =
      Action.leave (.ok machine) (session.stage executor) :=
    Stage.definition_of_stands hstands
  rw [call_of_leave hslot hdefinition, put_stage hslot]
  exact .stay h (Answer.isOrderly_ok _)

theorem advances_create (h : session.Sound) {machine : Machine} (hvalid : machine.violations = []) :
    session.Advances (session.step (.create machine)).1 (session.step (.create machine)).2 := by
  obtain ⟨hsound, hgrows⟩ := h.opened hvalid
  unfold step
  simp only [Site.create_apply h.isLocal]
  exact ⟨Answer.isOrderly_ok _, hsound, hgrows⟩

theorem advances_hydrate (h : session.Sound) (source : Source) :
    session.Advances (session.step (.hydrate source)).1 (session.step (.hydrate source)).2 := by
  simp only [step]
  cases hcontext : session.context? source with
  | none => exact .stay h Answer.isOrderly_none
  | some context =>
      have hexports : session.Exports context := by
        cases source with
        | exported index => exact h.exports context (List.mem_of_getElem? hcontext)
        | queued index =>
            obtain ⟨task, htask, rfl⟩ := Option.map_eq_some_iff.mp hcontext
            exact h.queue task (List.mem_of_getElem? htask)
      obtain ⟨executor, hcarries, rfl⟩ := hexports
      simp only [h.hydrate_apply hcarries]
      obtain ⟨hsound, hgrows⟩ :=
        h.given (hcarries.renamed (Identifier.spell session.site.issued)) (session.site.issued + 1)
      exact ⟨Answer.isOrderly_ok _, hsound, hgrows⟩

theorem advances_exportContext (h : session.Sound) (slot : Nat) :
    session.Advances (session.step (.exportContext slot)).1
      (session.step (.exportContext slot)).2 := by
  simp only [step, exportContext]
  cases hslot : session.executors[slot]? with
  | none => exact .stay h Answer.isOrderly_none
  | some executor =>
      have hcarries := h.executors executor (List.mem_of_getElem? hslot)
      have hcontext := executor.context_eq_ok h.isLocal.announcement
      rw [h.definitions] at hcontext
      simp only [hcontext]
      obtain ⟨hsound, hgrows⟩ := h.exporting hcarries
      exact ⟨Answer.isOrderly_ok _, hsound, hgrows⟩

theorem advances_reject (h : session.Sound) (rejection : Option String) :
    session.Advances (session.step (.reject rejection)).1 (session.step (.reject rejection)).2 := by
  obtain ⟨hsound, hgrows⟩ := h.rejecting rejection
  exact ⟨Answer.isOrderly_ok _, hsound, hgrows⟩

theorem advances_step (h : session.Sound) {command : Command}
    (hvalid : ∀ machine, command = .create machine → machine.violations = []) :
    session.Advances (session.step command).1 (session.step command).2 := by
  cases command with
  | create machine => exact advances_create h (hvalid machine rfl)
  | dispatch slot input =>
      exact advances_moving h fun _ _ hsound hvalid => Stage.moves_dispatch hsound hvalid input
  | runTask slot resource input report =>
      exact advances_moving h fun _ _ hsound hvalid =>
        moves_runTask hsound hvalid resource input report
  | exportContext slot => exact advances_exportContext h slot
  | hydrate source => exact advances_hydrate h source
  | current slot => exact advances_current h slot
  | definition slot => exact advances_definition h slot
  | reject rejection => exact advances_reject h rejection

theorem advances_run (h : session.Sound) {commands : List Command}
    (hvalid : ∀ machine, .create machine ∈ commands → machine.violations = []) :
    (session.run commands).2.Sound ∧ ∀ answer ∈ (session.run commands).1, answer.IsOrderly := by
  induction commands generalizing session with
  | nil => exact ⟨h, fun _ hanswer => absurd hanswer List.not_mem_nil⟩
  | cons command rest ih =>
      have hstep : session.Advances (session.step command).1 (session.step command).2 := by
        apply advances_step h
        rintro machine rfl
        exact hvalid machine List.mem_cons_self
      obtain ⟨hsound, horderly⟩ :=
        ih hstep.sound fun machine hmem => hvalid machine (List.mem_cons_of_mem _ hmem)
      refine ⟨hsound, ?_⟩
      intro answer hanswer
      rcases List.mem_cons.mp hanswer with rfl | hlater
      · exact hstep.orderly
      · exact horderly answer hlater

theorem sound_start (central : Bool) : (start central).Sound :=
  { definitions := rfl
    valid := fun _ _ hmem => absurd hmem List.not_mem_nil
    shelved := fun _ _ hfind => nomatch hfind
    table := fun _ _ hrecord => nomatch hrecord
    executors := fun _ hmem => absurd hmem List.not_mem_nil
    exports := fun _ hmem => absurd hmem List.not_mem_nil
    queue := fun _ hmem => absurd hmem List.not_mem_nil }

theorem created_call {α : Type} (session : Session) (slot : Nat) (action : Action Stage α)
    (reply : α → Reply) : (session.call slot action reply).2.created = session.created := by
  unfold call
  split
  · rfl
  · split <;> rfl

theorem mem_created_step {session : Session} {command : Command} {entry : String × Machine}
    (h : entry ∈ (session.step command).2.created) :
    entry ∈ session.created ∨ command = .create entry.2 := by
  cases command with
  | create machine =>
      simp only [step] at h
      split at h
      · rcases List.mem_append.mp h with hmem | hmem
        · exact .inl hmem
        · rw [List.mem_singleton.mp hmem]
          exact .inr rfl
      · exact .inl h
  | dispatch slot input => exact .inl (created_call session slot _ _ ▸ h)
  | runTask slot resource input report => exact .inl (created_call session slot _ _ ▸ h)
  | current slot => exact .inl (created_call session slot _ _ ▸ h)
  | definition slot => exact .inl (created_call session slot _ _ ▸ h)
  | reject rejection => exact .inl h
  | exportContext slot =>
      simp only [step, exportContext] at h
      split at h
      · exact .inl h
      · split at h <;> exact .inl h
  | hydrate source =>
      simp only [step] at h
      split at h
      · exact .inl h
      · split at h <;> exact .inl h

theorem mem_created_run {session : Session} {commands : List Command} {entry : String × Machine}
    (h : entry ∈ (session.run commands).2.created) :
    entry ∈ session.created ∨ .create entry.2 ∈ commands := by
  induction commands generalizing session with
  | nil => exact .inl h
  | cons command rest ih =>
      rcases ih h with hstep | hlater
      · rcases mem_created_step hstep with hmem | rfl
        · exact .inl hmem
        · exact .inr List.mem_cons_self
      · exact .inr (List.mem_cons_of_mem _ hlater)

/-- Each executor's execution is that of a machine that was created, and in exactly one phase of it. -/
def EachInOnePhase (session : Session) : Prop :=
  ∀ executor ∈ session.executors, ∃ machine state result,
    (executor.executionId, machine) ∈ session.created ∧
    Stage.definition (session.stage executor) = .ok machine (session.stage executor) ∧
    Stage.current (session.stage executor) = .ok (state, result) (session.stage executor) ∧
    ∃! phase : Phase, phase.Holds machine state result

theorem Sound.eachInOnePhase {session : Session} (h : session.Sound)
    (hdistinct : ∀ first second, first ∈ session.created → second ∈ session.created →
      first.2.contentHash = second.2.contentHash → first.2 = second.2) :
    session.EachInOnePhase := by
  intro executor hmem
  obtain ⟨record, source, machine, hfollows, hstands, _⟩ := (h.executors executor hmem).stands h
  obtain ⟨hdigest, id, hcreated⟩ := h.shelved _ machine hfollows.found
  obtain rfl : machine = source := hdistinct _ _ hcreated hfollows.created hdigest
  exact ⟨machine, record.state, record.result, hfollows.created, Stage.definition_of_stands hstands,
    Stage.current_of_recorded hstands.recorded, hfollows.sound.existsUnique⟩

/-- However a site is called, with old executors and old contexts and while tasks are turned away:
as long as the machines are valid and no two of them share a digest, every executor finds its
execution in exactly one phase, and no call answers that a state is unknown or is not a task. -/
theorem eachInOnePhase_run (central : Bool) {commands : List Command}
    (hvalid : ∀ machine, .create machine ∈ commands → machine.violations = [])
    (hdistinct : ∀ first second, .create first ∈ commands → .create second ∈ commands →
      first.contentHash = second.contentHash → first = second) :
    ((start central).run commands).2.EachInOnePhase ∧
      ∀ answer ∈ ((start central).run commands).1, answer.IsOrderly := by
  obtain ⟨hsound, horderly⟩ := advances_run (sound_start central) hvalid
  have hcreated : ∀ entry ∈ ((start central).run commands).2.created,
      .create entry.2 ∈ commands := by
    intro entry hentry
    rcases mem_created_run hentry with hmem | hcommand
    · exact absurd hmem List.not_mem_nil
    · exact hcommand
  refine ⟨hsound.eachInOnePhase ?_, horderly⟩
  intro first second hfirst hsecond hdigest
  exact hdistinct first.2 second.2 (hcreated first hfirst) (hcreated second hsecond) hdigest

/-- The errand is dispatched, its task is turned away and then run, and whoever takes over the context
of the first hand-off starts from there again. -/
def errandCommands : List Command :=
  [.create .errand, .dispatch 0 .null, .hydrate (.queued 0), .reject (some "full"),
    .dispatch 1 .null, .runTask 1 "courier" .null (.error "storm"), .hydrate (.queued 0)]

theorem eachInOnePhase_errand :
    ((start false).run errandCommands).2.EachInOnePhase ∧
      ∀ answer ∈ ((start false).run errandCommands).1, answer.IsOrderly := by
  have hcreate : ∀ {machine}, .create machine ∈ errandCommands → machine = .errand := by
    intro machine hmem
    simpa [errandCommands] using hmem
  apply eachInOnePhase_run false
  · intro machine hmem
    rw [hcreate hmem]
    exact Machine.violations_errand
  · intro first second hfirst hsecond _
    rw [hcreate hfirst, hcreate hsecond]

end Session

end Workflow
