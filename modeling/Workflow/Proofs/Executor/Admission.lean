import Workflow.Proofs.Decode.Concur
import Workflow.Proofs.Executor.Arrival

/-!
# Taking over from any context

What comes of taking over from a context, whoever has put it together, is told by the context and by
where the site keeps its executions. The site is only pointed to where the definitions are.
-/

namespace Workflow

/-- The record that the slice of an execution tells. -/
def ExecutionRecord.ofSlice (slice : Slice) : Except ContextError ExecutionRecord := do
  let id ← slice.require .text Execution.definitionKey
  let state ← slice.getAs? ExecutionState.decode Execution.stateKey
  let result ← slice.getAs? ExecutionResult.decode Execution.resultKey
  return { definitionId := some id, state, result }

theorem ExecutionRecord.definitionId_of_ofSlice {slice : Slice} {record : ExecutionRecord}
    (h : ofSlice slice = .ok record) :
    ∃ id, slice.require .text Execution.definitionKey = .ok id ∧ record.definitionId = some id := by
  obtain ⟨id, hid, h⟩ := ok_of_bind h
  obtain ⟨state, _, h⟩ := ok_of_bind h
  obtain ⟨result, _, h⟩ := ok_of_bind h
  cases h
  exact ⟨id, hid, rfl⟩

namespace Context

variable (context : Context)

/-- The execution that is told about, at a site that keeps executions in a table or does not. -/
def execution (central : Bool) (id : String) : Except ContextError Execution :=
  if central then .ok { id, held := none }
  else
    (ExecutionRecord.ofSlice (context.slice Execution.spaceName)).map fun record =>
      { id, held := some record }

/-- Where the definitions are told to be. -/
def location : Except ContextError (Option String) :=
  (context.slice "definitions").getAs? .text DefinitionStore.locationKey

/-- The executor of the execution with an identifier. -/
def executor (central : Bool) (id executorId : String) : Except ContextError Executor := do
  let execution ← context.execution central id
  let sequence ← Logger.sequenceIn (context.slice Logger.spaceName)
  return { execution, executorId, sequence }

end Context

section Adopt

variable {handle : Handle} {before : ExecutionRecord}

/-- The members of a slice are taken over in their order, each before the next one is read. -/
theorem Handle.adopt_apply_of_held (hheld : handle.execution.held = some before) (slice : Slice) :
    adopt slice handle =
      match slice.require .text Execution.definitionKey,
        slice.getAs? ExecutionState.decode Execution.stateKey,
        slice.getAs? ExecutionResult.decode Execution.resultKey with
      | .error error, _, _ => .error (.context error) handle
      | .ok id, .error error, _ =>
        .error (.context error)
          { handle with execution.held := some { before with definitionId := some id } }
      | .ok id, .ok state, .error error =>
        .error (.context error)
          { handle with execution.held := some { before with definitionId := some id, state } }
      | .ok id, .ok state, .ok result =>
        .ok () { handle with execution.held := some { definitionId := some id, state, result } } := by
  unfold adopt
  rw [Action.bind_of_ok (Action.get_apply handle), if_pos (by rw [hheld]; rfl)]
  cases slice.require .text Execution.definitionKey with
  | error error => rfl
  | ok id =>
      rw [Action.ofContext_bind, Action.bind_of_ok (modifyRecord_of_held hheld _)]
      cases slice.getAs? ExecutionState.decode Execution.stateKey with
      | error error => rfl
      | ok state =>
          rw [Action.ofContext_bind, Action.bind_of_ok (modifyRecord_of_held rfl _)]
          cases slice.getAs? ExecutionResult.decode Execution.resultKey with
          | error error => rfl
          | ok result => rw [Action.ofContext_bind, modifyRecord_of_held rfl]

theorem Handle.adopt_of_held (hheld : handle.execution.held = some before) (slice : Slice) :
    (∃ record, ExecutionRecord.ofSlice slice = .ok record ∧
      adopt slice handle = .ok () { handle with execution.held := some record }) ∨
    ∃ error after, ExecutionRecord.ofSlice slice = .error error ∧
      adopt slice handle = .error (.context error) after ∧ after.site = handle.site := by
  rw [adopt_apply_of_held hheld]
  unfold ExecutionRecord.ofSlice
  cases slice.require .text Execution.definitionKey with
  | error error => exact .inr ⟨error, _, rfl, rfl, rfl⟩
  | ok id =>
      cases slice.getAs? ExecutionState.decode Execution.stateKey with
      | error error => exact .inr ⟨error, _, rfl, rfl, rfl⟩
      | ok state =>
          cases slice.getAs? ExecutionResult.decode Execution.resultKey with
          | error error => exact .inr ⟨error, _, rfl, rfl, rfl⟩
          | ok result => exact .inl ⟨_, rfl, rfl⟩

end Adopt

namespace Executor

variable (executorId id : String) (context : Context) {site : Site}

theorem adoptExecution_apply :
    adoptExecution id context site =
      Action.leave ((context.execution site.central id).mapError .context) site := by
  unfold adoptExecution Context.execution
  cases hcentral : site.central with
  | true =>
      have hopened : Execution.opened site id = { id, held := none } := by
        rw [Execution.opened, hcentral, if_pos rfl]
      rw [hopened, Handle.adopt_of_tabled rfl]
      rfl
  | false =>
      have hopened : Execution.opened site id = { id, held := some .blank } := by
        rw [Execution.opened, hcentral]
        rfl
      rw [hopened]
      rcases @Handle.adopt_of_held { execution := { id, held := some .blank }, site } _ rfl
          (context.slice Execution.spaceName) with
        ⟨record, hrecord, hadopt⟩ | ⟨error, after, herror, hadopt, hsite⟩
      · rw [hadopt, hrecord]
        rfl
      · rw [hadopt, herror]
        simp only
        rw [hsite]
        rfl

theorem adoptDefinitions_apply (h : site.definitions.announcement = none) :
    adoptDefinitions context site =
      match context.location with
      | .ok location => .ok () { site with definitions.location := location }
      | .error error => .error (.context error) site := by
  unfold adoptDefinitions
  rw [Action.bind_of_ok (Action.get_apply site), DefinitionStore.spaceName_eq h]
  unfold DefinitionStore.adopt Context.location
  cases (context.slice "definitions").getAs? .text DefinitionStore.locationKey <;> rfl

/-- The parts are read one after the other. Once it is read where the definitions are, the site is
pointed there, whatever the later parts are like. -/
theorem hydrateAs_apply (h : site.definitions.announcement = none) :
    hydrateAs executorId context site =
      match readOwnSlice (context.slice spaceName), context.location with
      | .error error, _ => .error (.context error) site
      | .ok _, .error error => .error (.context error) site
      | .ok id, .ok location =>
        Action.leave ((context.executor site.central id executorId).mapError .context)
          { site with definitions.location := location } := by
  unfold hydrateAs
  cases readOwnSlice (context.slice spaceName) with
  | error error => rfl
  | ok id =>
      rw [Action.ofContext_bind]
      have hdefinitions := adoptDefinitions_apply context h
      cases hlocation : context.location with
      | error error =>
          rw [hlocation] at hdefinitions
          exact Action.bind_of_error hdefinitions _
      | ok location =>
          rw [hlocation] at hdefinitions
          have hexecution : adoptExecution id context { site with definitions.location := location } =
              Action.leave ((context.execution site.central id).mapError .context) _ :=
            adoptExecution_apply id context
          rw [Action.bind_of_ok hdefinitions]
          simp only
          unfold Context.executor
          cases hread : context.execution site.central id with
          | error error =>
              rw [hread] at hexecution
              rw [Action.bind_of_error hexecution]
              rfl
          | ok execution =>
              rw [hread] at hexecution
              rw [Action.bind_of_ok hexecution]
              cases Logger.sequenceIn (context.slice Logger.spaceName) <;> rfl

/-- Whether an executor is kept as the site keeps executions, and a record that it holds follows some
definition. -/
structure IsKept (executor : Executor) (central : Bool) : Prop where
  kept : executor.execution.held.isNone = central
  defined : ∀ record, executor.execution.held = some record → record.definitionId ≠ none

variable {executorId id context} {executor : Executor}

/-- The record that an executor holds is the one of its context. -/
theorem held_of_executor {central : Bool}
    (h : context.executor central id executorId = .ok executor) :
    if central then executor.execution.held = none
    else ∃ record, executor.execution.held = some record ∧
      ExecutionRecord.ofSlice (context.slice Execution.spaceName) = .ok record := by
  obtain ⟨execution, hexecution, h⟩ := ok_of_bind h
  obtain ⟨sequence, _, h⟩ := ok_of_bind h
  cases h
  unfold Context.execution at hexecution
  cases central with
  | true =>
      cases hexecution
      rfl
  | false =>
      obtain ⟨record, hrecord, hexecution⟩ := ok_of_bind hexecution
      cases hexecution
      exact ⟨record, rfl, hrecord⟩

theorem IsKept.of_executor {central : Bool}
    (h : context.executor central id executorId = .ok executor) : executor.IsKept central := by
  have hheld := held_of_executor h
  cases central with
  | true =>
      have hnone : executor.execution.held = none := hheld
      exact ⟨by rw [hnone]; rfl, fun record hsome => nomatch hnone.symm.trans hsome⟩
  | false =>
      obtain ⟨record, hsome, hrecord⟩ := hheld
      obtain ⟨definitionId, _, hid⟩ := ExecutionRecord.definitionId_of_ofSlice hrecord
      refine ⟨by rw [hsome]; rfl, ?_⟩
      intro other hother
      obtain rfl := Option.some.inj (hsome.symm.trans hother)
      rw [hid]
      exact Option.some_ne_none definitionId

/-- Taking over from a context fails for one reason wherever executions are kept in the same way, or it
gives one executor there. The site is pointed to where the definitions are, at the most. -/
theorem hydrateAs_cases (central : Bool) (context : Context) (executorId : String) :
    (∃ error, ∀ site : Site, site.definitions.announcement = none → site.central = central →
      ∃ location, hydrateAs executorId context site =
        .error error { site with definitions.location := location }) ∨
    ∃ id executor location, context.executor central id executorId = .ok executor ∧
      ∀ site : Site, site.definitions.announcement = none → site.central = central →
        hydrateAs executorId context site =
          .ok executor { site with definitions.location := location } := by
  cases hown : readOwnSlice (context.slice spaceName) with
  | error error =>
      refine .inl ⟨.context error, ?_⟩
      intro site h _
      refine ⟨site.definitions.location, ?_⟩
      rw [hydrateAs_apply executorId context h, hown]
  | ok id =>
      cases hlocation : context.location with
      | error error =>
          refine .inl ⟨.context error, ?_⟩
          intro site h _
          refine ⟨site.definitions.location, ?_⟩
          rw [hydrateAs_apply executorId context h, hown, hlocation]
      | ok location =>
          cases hexecutor : context.executor central id executorId with
          | error error =>
              refine .inl ⟨.context error, ?_⟩
              rintro site h rfl
              refine ⟨location, ?_⟩
              rw [hydrateAs_apply executorId context h, hown, hlocation]
              simp only [hexecutor]
              rfl
          | ok executor =>
              refine .inr ⟨id, executor, location, hexecutor, ?_⟩
              rintro site h rfl
              rw [hydrateAs_apply executorId context h, hown, hlocation]
              simp only [hexecutor]
              rfl

/-- Nothing is read by the identifier that an executor is given. -/
theorem hydrateAs_renamed (executorId : String) (context : Context) (site : Site) :
    hydrateAs executorId context site =
      match hydrateAs "" context site with
      | .ok executor after => .ok { executor with executorId } after
      | .error error after => .error error after := by
  unfold hydrateAs
  cases readOwnSlice (context.slice spaceName) with
  | error error => rfl
  | ok id =>
      rw [Action.ofContext_bind, Action.ofContext_bind]
      cases hdefinitions : adoptDefinitions context site with
      | error error after =>
          rw [Action.bind_of_error hdefinitions, Action.bind_of_error hdefinitions]
      | ok _ pointed =>
          rw [Action.bind_of_ok hdefinitions, Action.bind_of_ok hdefinitions]
          cases hexecution : adoptExecution id context pointed with
          | error error after =>
              rw [Action.bind_of_error hexecution, Action.bind_of_error hexecution]
          | ok execution after =>
              rw [Action.bind_of_ok hexecution, Action.bind_of_ok hexecution]
              cases Logger.sequenceIn (context.slice Logger.spaceName) <;> rfl

/-- An execution is taken over under the next identifier, which is drawn if the context is good. -/
theorem hydrate_eq_hydrateAs (h : site.definitions.announcement = none) (context : Context) :
    hydrate context site =
      match hydrateAs (Identifier.spell site.issued) context site with
      | .ok executor after => .ok executor { after with issued := site.issued + 1 }
      | .error error after => .error error after := by
  rw [hydrateAs_renamed]
  unfold hydrate
  rcases hydrateAs_cases site.central context "" with
    ⟨error, hrefused⟩ | ⟨id, executor, location, _, hadmitted⟩
  · obtain ⟨location, hrefused⟩ := hrefused site h rfl
    rw [Action.bind_of_error hrefused, hrefused]
  · rw [Action.bind_of_ok (hadmitted site h rfl), hadmitted site h rfl]
    rfl

end Executor

end Workflow
