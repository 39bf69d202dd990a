import Workflow.Proofs.Executor.Admission
import Workflow.Proofs.Executor.Creation
import Workflow.Proofs.Session.Request

/-!
# Handing an execution over

In a session that also takes executions over from contexts put together elsewhere, every executor can
hand its execution over: its context can be exported, and whoever takes over from it there is at the
same point of the same execution.
-/

namespace Workflow

/-- What happens in an open session: a call, or a context comes in from elsewhere and is taken over. -/
inductive Event where
  | call (command : Command)
  | received (context : Context)

/-- What an action answers, whatever state it leaves. -/
def Action.answer {σ α : Type} : EStateM.Result ExecutorError σ α → Except ExecutorError α
  | .ok value _ => .ok value
  | .error error _ => .error error

theorem Action.answer_leave {σ α : Type} (answer : Except ExecutorError α) (state : σ) :
    Action.answer (leave answer state) = answer := by
  cases answer <;> rfl

theorem Stage.answer_definition (stage : Stage) :
    Action.answer (definition stage) = stage.lookUp.1.mapError .component := by
  rw [definition_apply, Action.answer_leave]

/-- At two stages of one view a call has one answer. -/
theorem Stage.IsUniform.answer_congr {α : Type} {action : Action Stage α} (h : IsUniform action)
    {first second : Stage} (hfirst : first.site.definitions.announcement = none)
    (hsecond : second.site.definitions.announcement = none) (hview : first.view = second.view) :
    Action.answer (action first) = Action.answer (action second) := by
  obtain ⟨answer, changes, hacts⟩ := h second.view
  rw [hacts first hfirst hview, hacts second hsecond rfl, Action.answer_leave, Action.answer_leave]

/-- A call leaves an executor kept as it was. -/
theorem Executor.IsKept.of_confined {before after : Stage} {central : Bool}
    (h : before.executor.IsKept central) (hconfined : before.Confined after) :
    after.executor.IsKept central := by
  refine ⟨hconfined.kept.trans h.kept, ?_⟩
  intro record hrecord hundefined
  have hids := hconfined.defined
  rw [hrecord, Option.map_some, hundefined] at hids
  obtain ⟨earlier, hearlier, hid⟩ := Option.map_eq_some_iff.mp hids.symm
  exact h.defined earlier hearlier hid

theorem Site.isKept_created (site : Site) (machine : Machine) :
    (site.created machine).executor.IsKept site.central := by
  refine ⟨site.isNone_held_created machine, ?_⟩
  intro record hrecord
  rw [site.held_created machine] at hrecord
  split at hrecord
  · cases hrecord
  · cases hrecord
    exact Option.some_ne_none _

/-- Taking over points the site to where the definitions are, at the most, and an executor that it gives
is kept as the site keeps executions. -/
theorem Executor.hydrate_cases {site : Site} (h : site.definitions.announcement = none)
    (context : Context) :
    (∃ error location,
      hydrate context site = .error error { site with definitions.location := location }) ∨
    ∃ (executor : Executor) (location : Option String), executor.IsKept site.central ∧
      hydrate context site =
        .ok executor { site with definitions.location := location, issued := site.issued + 1 } := by
  rw [hydrate_eq_hydrateAs h]
  rcases hydrateAs_cases site.central context (Identifier.spell site.issued) with
    ⟨error, hrefused⟩ | ⟨id, executor, location, hexecutor, hadmitted⟩
  · obtain ⟨location, hhydrate⟩ := hrefused site h rfl
    rw [hhydrate]
    exact .inl ⟨error, location, rfl⟩
  · rw [hadmitted site h rfl]
    exact .inr ⟨executor, location, .of_executor hexecutor, rfl⟩

namespace Session

variable {α : Type}

/-- The session after an execution was taken over from a context. -/
def receive (session : Session) (context : Context) : Session :=
  match Executor.hydrate context session.site with
  | .ok executor site => session.given executor site
  | .error _ site => { session with site }

def meet (session : Session) : Event → Session
  | .call command => (session.step command).2
  | .received context => session.receive context

/-- The session after a list of events. -/
def meetAll (session : Session) (events : List Event) : Session :=
  events.foldl meet session

theorem step_hydrate (session : Session) (source : Source) :
    (session.step (.hydrate source)).2 =
      match session.context? source with
      | none => session
      | some context => session.receive context := by
  simp only [step, receive]
  cases session.context? source with
  | none => rfl
  | some context =>
      simp only
      cases Executor.hydrate context session.site <;> rfl

/-- Whether somebody who has taken over from a context, at the site of the session, stands where the
executor stands. -/
structure HandsOver (session : Session) (executor : Executor) (context : Context)
    (heir : Executor) : Prop where
  exported : executor.context session.site = .ok context
  /-- Taking over uses up an identifier and changes nothing else. -/
  taken : Executor.hydrate context session.site =
    .ok heir { session.site with issued := session.site.issued + 1 }
  executionId : heir.executionId = executor.executionId
  sequence : heir.sequence = executor.sequence
  current : Action.answer
      (Stage.current ⟨heir, { session.site with issued := session.site.issued + 1 }⟩) =
    Action.answer (Stage.current (session.stage executor))
  definition : Action.answer
      (Stage.definition ⟨heir, { session.site with issued := session.site.issued + 1 }⟩) =
    Action.answer (Stage.definition (session.stage executor))
  again : heir.context { session.site with issued := session.site.issued + 1 } = .ok context

/-- Whether all executors of a session can hand over. -/
structure IsOpen (session : Session) : Prop where
  isLocal : session.site.IsLocal
  executors : ∀ executor ∈ session.executors, executor.IsKept session.site.central

variable {session : Session}

theorem IsOpen.hydrate_exported (h : session.IsOpen) {executor : Executor}
    (hexecutor : executor ∈ session.executors) :
    Executor.hydrate (executor.exported session.site.definitions) session.site =
      .ok { executor with executorId := Identifier.spell session.site.issued }
        { session.site with issued := session.site.issued + 1 } := by
  obtain ⟨hkept, hdefined⟩ := h.executors executor hexecutor
  have hlocation : { session.site.definitions with
      location := session.site.definitions.location } = session.site.definitions := rfl
  rw [Executor.hydrate_exported h.isLocal.announcement h.isLocal.announcement hkept hdefined,
    hlocation]

theorem IsOpen.handsOver (h : session.IsOpen) {executor : Executor}
    (hexecutor : executor ∈ session.executors) :
    session.HandsOver executor (executor.exported session.site.definitions)
      { executor with executorId := Identifier.spell session.site.issued } := by
  have hannouncement := h.isLocal.announcement
  have hview := (session.stage executor).view_renamed (Identifier.spell session.site.issued)
    (session.site.issued + 1)
  -- Said of any new identifier, so that the one that is given out is not computed.
  have hsame : ∀ executorId, ({ executor with executorId } : Executor).executionId =
        executor.executionId ∧
      ({ executor with executorId } : Executor).sequence = executor.sequence ∧
      ({ executor with executorId } : Executor).exported session.site.definitions =
        executor.exported session.site.definitions := fun _ => ⟨rfl, rfl, rfl⟩
  obtain ⟨hid, hsequence, hexported⟩ := hsame (Identifier.spell session.site.issued)
  refine
    { exported := executor.context_eq_ok hannouncement
      taken := h.hydrate_exported hexecutor
      executionId := hid
      sequence := hsequence
      current := Stage.isUniform_current.answer_congr hannouncement hannouncement hview
      definition := Stage.isUniform_definition.answer_congr hannouncement hannouncement hview
      again := ?_ }
  rw [← hexported]
  exact Executor.context_eq_ok _ hannouncement

section Steps

variable {site : Site} {executor : Executor}

theorem IsOpen.of_site (h : session.IsOpen) (hlocal : site.IsLocal)
    (hcentral : site.central = session.site.central) : IsOpen { session with site } :=
  ⟨hlocal, fun executor hexecutor => hcentral ▸ h.executors executor hexecutor⟩

theorem IsOpen.given (h : session.IsOpen) (hlocal : site.IsLocal)
    (hcentral : site.central = session.site.central)
    (hkept : executor.IsKept session.site.central) : (session.given executor site).IsOpen := by
  refine ⟨hlocal, ?_⟩
  intro other hother
  change other.IsKept site.central
  rw [hcentral]
  rcases List.mem_append.mp hother with hother | hother
  · exact h.executors other hother
  · rw [List.mem_singleton.mp hother]
    exact hkept

theorem IsOpen.put (h : session.IsOpen) {slot : Nat} {after : Stage}
    (hslot : session.executors[slot]? = some executor)
    (hconfined : (session.stage executor).Confined after) : (session.put slot after).IsOpen := by
  have hcentral : after.site.central = session.site.central := hconfined.central
  have hdefinitions : after.site.definitions = session.site.definitions := hconfined.definitions
  have hafter : after.executor.IsKept session.site.central :=
    (h.executors executor (List.mem_of_getElem? hslot)).of_confined hconfined
  refine ⟨?_, ?_⟩
  · change after.site.IsLocal
    exact ⟨hdefinitions ▸ h.isLocal.front, hdefinitions ▸ h.isLocal.announcement⟩
  · intro other hother
    change other.IsKept after.site.central
    rw [hcentral]
    rcases List.mem_or_eq_of_mem_set hother with hother | rfl
    · exact h.executors other hother
    · exact hafter

theorem IsOpen.call (h : session.IsOpen) (slot : Nat) {action : Action Stage α}
    (huniform : Stage.IsUniform action) (reply : α → Reply) :
    (session.call slot action reply).2.IsOpen := by
  unfold Session.call
  cases hslot : session.executors[slot]? with
  | none => exact h
  | some executor =>
      have hannouncement : (session.stage executor).site.definitions.announcement = none :=
        h.isLocal.announcement
      obtain ⟨answer, after, haction, hconfined⟩ := huniform.leaves hannouncement
      simp only
      rw [haction]
      cases answer with
      | ok value => exact h.put hslot hconfined
      | error error => exact h.put hslot hconfined

theorem IsOpen.receive (h : session.IsOpen) (context : Context) :
    (session.receive context).IsOpen := by
  have hlocal : ∀ location, Site.IsLocal { session.site with definitions.location := location } :=
    fun _ => ⟨h.isLocal.front, h.isLocal.announcement⟩
  unfold Session.receive
  rcases Executor.hydrate_cases h.isLocal.announcement context with
    ⟨error, location, hrefused⟩ | ⟨executor, location, hkept, hadmitted⟩
  · rw [hrefused]
    exact h.of_site (hlocal location) rfl
  · rw [hadmitted]
    exact h.given ⟨(hlocal location).front, (hlocal location).announcement⟩ rfl hkept

theorem IsOpen.create (h : session.IsOpen) (machine : Machine) :
    (session.step (.create machine)).2.IsOpen := by
  have hsite : (session.site.created machine).site = _ := session.site.site_created machine
  unfold step
  simp only [Site.create_apply h.isLocal]
  have hgiven : (session.given (session.site.created machine).executor
      (session.site.created machine).site).IsOpen := by
    apply h.given _ _ (session.site.isKept_created machine)
    · rw [hsite]
      exact ⟨h.isLocal.front, h.isLocal.announcement⟩
    · rw [hsite]
  exact ⟨hgiven.isLocal, hgiven.executors⟩

end Steps

theorem IsOpen.step (h : session.IsOpen) (command : Command) : (session.step command).2.IsOpen := by
  cases command with
  | create machine => exact h.create machine
  | dispatch slot input => exact h.call slot (Stage.isUniform_dispatch input) _
  | runTask slot resource input report =>
      exact h.call slot (isUniform_runTask resource input report) _
  | exportContext slot =>
      change (session.exportContext slot).2.IsOpen
      unfold Session.exportContext
      cases session.executors[slot]? with
      | none => exact h
      | some executor =>
          simp only
          rw [executor.context_eq_ok h.isLocal.announcement]
          exact ⟨h.isLocal, h.executors⟩
  | hydrate source =>
      rw [step_hydrate]
      cases session.context? source with
      | none => exact h
      | some context => exact h.receive context
  | current slot => exact h.call slot Stage.isUniform_current _
  | definition slot => exact h.call slot Stage.isUniform_definition _
  | reject rejection => exact h.of_site ⟨h.isLocal.front, h.isLocal.announcement⟩ rfl

theorem IsOpen.meet (h : session.IsOpen) (event : Event) : (session.meet event).IsOpen := by
  cases event with
  | call command => exact h.step command
  | received context => exact h.receive context

theorem IsOpen.meetAll (h : session.IsOpen) (events : List Event) : (session.meetAll events).IsOpen := by
  induction events generalizing session with
  | nil => exact h
  | cons event rest ih => exact ih (h.meet event)

theorem isOpen_start (central : Bool) : (start central).IsOpen :=
  ⟨⟨rfl, rfl⟩, List.forall_mem_nil _⟩

/-- Whatever a session has met, every executor can hand its execution over: its context can be exported
and taken over from, and whoever does so is at the same point of the same execution. -/
theorem handsOver_meetAll (central : Bool) (events : List Event) :
    ∀ executor ∈ ((start central).meetAll events).executors,
      ∃ context heir, ((start central).meetAll events).HandsOver executor context heir :=
  fun _ hexecutor => ⟨_, _, ((isOpen_start central).meetAll events).handsOver hexecutor⟩

/-- A context that no executor has exported: its execution has no position in the log, and its payload
is null. -/
def visitorContext : Context :=
  { entries := .ofList
      [("x-stately-executor-execution_id", .text "visitor"),
        ("x-stately-executor-version", .ofUInt32 1),
        ("x-stately-execution-definition_id", .text "elsewhere"),
        ("x-stately-execution-state", .record [("Name", .text "Carry"), ("Data", .null)]),
        ("trace", .text "kept out")] }

def visitor : Executor :=
  { execution :=
      { id := "visitor"
        held := some
          { definitionId := some "elsewhere"
            state := some { name := "Carry", data := some .null }
            result := none } }
    executorId := Identifier.spell 2
    sequence := 0 }

/-- An errand is under way when the visitor comes in. -/
def visit : List Event :=
  [.call (.create .errand), .call (.dispatch 0 .null), .received visitorContext]

theorem handsOver_visitor :
    visitor ∈ ((start false).meetAll visit).executors ∧
      ∃ context heir, ((start false).meetAll visit).HandsOver visitor context heir := by
  have hvisitor : visitor ∈ ((start false).meetAll visit).executors := by decide +kernel
  exact ⟨hvisitor, handsOver_meetAll false visit visitor hvisitor⟩

end Session

end Workflow
