import Workflow.Proofs.Decode.Grammar
import Workflow.Proofs.Execution.Operations
import Workflow.Proofs.Session.Handover
import Workflow.Proofs.Store.Cache

/-!
# Slices that are taken over in part

Taking a slice over goes through or is said to have failed. A definition store, a logger and the handle
of an execution in a table are as they were after a failure. The handle of an execution that travels in
its context is not: it takes the members of its record over one by one, and keeps those in front of the
one that is wrong.
-/

namespace Workflow

open Execution (definitionKey stateKey resultKey)

/-- A part of a site that takes its slice of a context over. -/
inductive Component where
  | execution (handle : Handle)
  | definitions (archive : Archive)
  | log (logger : Logger)

/-- What can be seen of a component. -/
inductive Appearance where
  | execution (definition : Except ExecutorError Machine)
      (current : Except ExecutorError (Option ExecutionState × Option ExecutionResult)) (slice : Slice)
  | definitions (found : String → StoreAnswer) (location : Option String) (slice : Slice)
  | log (position : UInt64) (slice : Slice)

/-- The handle with another record in place of the one that it holds. -/
def Handle.holding (handle : Handle) (record : ExecutionRecord) : Handle :=
  { handle with execution.held := some record }

theorem Handle.holding_of_held {handle : Handle} {record : ExecutionRecord}
    (hheld : handle.execution.held = some record) : handle.holding record = handle := by
  obtain ⟨⟨id, held⟩, site⟩ := handle
  cases hheld
  rfl

/-- The slice of a record tells all of it. -/
theorem Execution.recordSlice_injective : Function.Injective recordSlice := by
  intro first second heq
  have htext : Function.Injective Json.text := fun _ _ h => congrArg Json.asText h
  have hid : first.definitionId = second.definitionId := by
    apply Option.map_injective htext
    rw [← recordSlice_definition, ← recordSlice_definition, heq]
  have hstate : first.state = second.state := by
    apply Except.ok.inj
    rw [← getAs?_recordSlice_state, ← getAs?_recordSlice_state, heq]
  have hresult : first.result = second.result := by
    apply Except.ok.inj
    rw [← getAs?_recordSlice_result, ← getAs?_recordSlice_result, heq]
  cases first
  cases second
  cases hid
  cases hstate
  cases hresult
  rfl

namespace Component

/-- Takes a slice over. The component is what it is after a failure, too. -/
def adopt (slice : Slice) : Component → Except ExecutorError Unit × Component
  | .execution handle =>
    let outcome := Handle.adopt slice handle
    (Action.answer outcome, .execution (Action.stateAfter outcome))
  | .definitions archive =>
    match archive.serve (.importSlice slice) with
    | (.imported (.error fault), after) => (.error (.context fault), .definitions after)
    | (_, after) => (.ok (), .definitions after)
  | .log logger =>
    match logger.adopt slice with
    | .ok after => (.ok (), .log after)
    | .error fault => (.error (.context fault), .log logger)

def appearance : Component → Appearance
  | .execution handle =>
    .execution (Action.answer (Handle.definition handle)) (Action.answer (Handle.current handle))
      handle.execution.slice
  | .definitions archive =>
    .definitions (fun id => (archive.serve (.hydrate id)).1) archive.store.location archive.store.slice
  | .log logger => .log logger.sequence logger.slice

/-- How taking a slice over fails: at which of its entries, with what fault, and what the component is
like then. The handle of an execution in a table is not among those that fail. -/
inductive Halts (slice : Slice) : Component → ContextError → Component → Prop
  | definitionId {handle : Handle} {record : ExecutionRecord} {fault : ContextError}
      (hheld : handle.execution.held = some record)
      (h : slice.require .text definitionKey = .error fault) :
      Halts slice (.execution handle) fault (.execution handle)
  | state {handle : Handle} {record : ExecutionRecord} {id : String} {fault : ContextError}
      (hheld : handle.execution.held = some record) (hid : slice.require .text definitionKey = .ok id)
      (h : slice.getAs? ExecutionState.decode stateKey = .error fault) :
      Halts slice (.execution handle) fault
        (.execution (handle.holding { record with definitionId := some id }))
  | result {handle : Handle} {record : ExecutionRecord} {id : String} {state : Option ExecutionState}
      {fault : ContextError} (hheld : handle.execution.held = some record)
      (hid : slice.require .text definitionKey = .ok id)
      (hstate : slice.getAs? ExecutionState.decode stateKey = .ok state)
      (h : slice.getAs? ExecutionResult.decode resultKey = .error fault) :
      Halts slice (.execution handle) fault
        (.execution (handle.holding { record with definitionId := some id, state }))
  | location {archive : Archive} {fault : ContextError}
      (h : slice.getAs? .text DefinitionStore.locationKey = .error fault) :
      Halts slice (.definitions archive) fault (.definitions archive)
  | sequence {logger : Logger} {fault : ContextError}
      (h : slice.getAs? .word64 Logger.sequenceKey = .error fault) :
      Halts slice (.log logger) fault (.log logger)

/-- Whether a failure to take a slice over changes nothing. It may where a record is held, unless the
record has already what stands in front of the fault. -/
def Spares (slice : Slice) : Component → Prop
  | .execution handle =>
    ∀ record id, handle.execution.held = some record → slice.require .text definitionKey = .ok id →
      record.definitionId = some id ∧
        ∀ state, slice.getAs? ExecutionState.decode stateKey = .ok state → record.state = state
  | .definitions _ | .log _ => True

variable {slice : Slice} {handle : Handle} {record : ExecutionRecord}

theorem adopt_execution {outcome : EStateM.Result ExecutorError Handle Unit}
    (h : Handle.adopt slice handle = outcome) :
    adopt slice (.execution handle) =
      (Action.answer outcome, .execution (Action.stateAfter outcome)) := by
  subst h
  rfl

/-- A handle that holds its record takes the members of a slice over in their order. -/
theorem adopt_of_held (hheld : handle.execution.held = some record) :
    adopt slice (.execution handle) =
      match slice.require .text definitionKey, slice.getAs? ExecutionState.decode stateKey,
        slice.getAs? ExecutionResult.decode resultKey with
      | .error fault, _, _ => (.error (.context fault), .execution handle)
      | .ok id, .error fault, _ =>
        (.error (.context fault),
          .execution (handle.holding { record with definitionId := some id }))
      | .ok id, .ok state, .error fault =>
        (.error (.context fault),
          .execution (handle.holding { record with definitionId := some id, state }))
      | .ok id, .ok state, .ok result =>
        (.ok (), .execution (handle.holding { definitionId := some id, state, result })) := by
  rw [adopt_execution (Handle.adopt_apply_of_held hheld slice)]
  cases slice.require .text definitionKey with
  | error fault => rfl
  | ok id =>
      cases slice.getAs? ExecutionState.decode stateKey with
      | error fault => rfl
      | ok state => cases slice.getAs? ExecutionResult.decode resultKey <;> rfl

theorem adopt_of_tabled (hheld : handle.execution.held = none) :
    adopt slice (.execution handle) = (.ok (), .execution handle) :=
  adopt_execution (Handle.adopt_of_tabled hheld slice)

theorem adopt_definitions (archive : Archive) :
    adopt slice (.definitions archive) =
      match slice.getAs? .text DefinitionStore.locationKey with
      | .ok location => (.ok (), .definitions { archive with store.location := location })
      | .error fault => (.error (.context fault), .definitions archive) := by
  unfold adopt
  simp only [Archive.serve_importSlice]
  cases slice.getAs? .text DefinitionStore.locationKey <;> rfl

theorem adopt_log (logger : Logger) :
    adopt slice (.log logger) =
      match slice.getAs? .word64 Logger.sequenceKey with
      | .ok position => (.ok (), .log { logger with sequence := position.getD 0 })
      | .error fault => (.error (.context fault), .log logger) := by
  unfold adopt Logger.adopt Logger.sequenceIn
  cases slice.getAs? .word64 Logger.sequenceKey <;> rfl

theorem adopt_of_halts {component after : Component} {fault : ContextError}
    (h : component.Halts slice fault after) :
    component.adopt slice = (.error (.context fault), after) := by
  cases h with
  | definitionId hheld h => rw [adopt_of_held hheld, h]
  | state hheld hid h => rw [adopt_of_held hheld, hid, h]
  | result hheld hid hstate h => rw [adopt_of_held hheld, hid, hstate, h]
  | location h => rw [adopt_definitions, h]
  | sequence h => rw [adopt_log, h]

theorem halts_of_adopt {component after : Component} {error : ExecutorError}
    (h : component.adopt slice = (.error error, after)) :
    ∃ fault, error = .context fault ∧ component.Halts slice fault after := by
  cases component with
  | execution handle =>
      cases hheld : handle.execution.held with
      | none =>
          rw [adopt_of_tabled hheld] at h
          cases h
      | some record =>
          rw [adopt_of_held hheld] at h
          cases hid : slice.require .text definitionKey with
          | error fault =>
              rw [hid] at h
              cases h
              exact ⟨fault, rfl, .definitionId hheld hid⟩
          | ok id =>
              cases hstate : slice.getAs? ExecutionState.decode stateKey with
              | error fault =>
                  rw [hid, hstate] at h
                  cases h
                  exact ⟨fault, rfl, .state hheld hid hstate⟩
              | ok state =>
                  cases hresult : slice.getAs? ExecutionResult.decode resultKey with
                  | error fault =>
                      rw [hid, hstate, hresult] at h
                      cases h
                      exact ⟨fault, rfl, .result hheld hid hstate hresult⟩
                  | ok result =>
                      rw [hid, hstate, hresult] at h
                      cases h
  | definitions archive =>
      rw [adopt_definitions] at h
      cases hlocation : slice.getAs? .text DefinitionStore.locationKey with
      | error fault =>
          rw [hlocation] at h
          cases h
          exact ⟨fault, rfl, .location hlocation⟩
      | ok location =>
          rw [hlocation] at h
          cases h
  | log logger =>
      rw [adopt_log] at h
      cases hsequence : slice.getAs? .word64 Logger.sequenceKey with
      | error fault =>
          rw [hsequence] at h
          cases h
          exact ⟨fault, rfl, .sequence hsequence⟩
      | ok position =>
          rw [hsequence] at h
          cases h

/-- A change to the record that a handle holds shows. -/
theorem appearance_holding_eq_iff (hheld : handle.execution.held = some record)
    (next : ExecutionRecord) :
    appearance (.execution (handle.holding next)) = appearance (.execution handle) ↔
      record = next := by
  constructor
  · intro heq
    have hslice : Execution.recordSlice next = handle.execution.slice :=
      (Appearance.execution.inj heq).2.2
    rw [Execution.slice, hheld] at hslice
    exact (Execution.recordSlice_injective hslice).symm
  · rintro rfl
    rw [Handle.holding_of_held hheld]

theorem spares_of_held_iff {id : String} (hheld : handle.execution.held = some record)
    (hid : slice.require .text definitionKey = .ok id) :
    Spares slice (.execution handle) ↔
      record.definitionId = some id ∧
        ∀ state, slice.getAs? ExecutionState.decode stateKey = .ok state → record.state = state := by
  constructor
  · intro h
    exact h record id hheld hid
  · rintro h other otherId hother hotherId
    obtain rfl := Option.some.inj (hheld.symm.trans hother)
    obtain rfl := Except.ok.inj (hid.symm.trans hotherId)
    exact h

theorem appearance_eq_iff_spares {component after : Component} {fault : ContextError}
    (h : component.Halts slice fault after) :
    after.appearance = component.appearance ↔ component.Spares slice := by
  cases h with
  | definitionId hheld h =>
      refine ⟨fun _ _ id _ hid => ?_, fun _ => rfl⟩
      rw [h] at hid
      cases hid
  | state hheld hid h =>
      rw [appearance_holding_eq_iff hheld, spares_of_held_iff hheld hid, h]
      constructor
      · intro heq
        exact ⟨congrArg ExecutionRecord.definitionId heq, fun _ hstate => nomatch hstate⟩
      · rintro ⟨hdefinition, _⟩
        rw [← hdefinition]
  | result hheld hid hstate h =>
      rw [appearance_holding_eq_iff hheld, spares_of_held_iff hheld hid, hstate]
      constructor
      · intro heq
        refine ⟨congrArg ExecutionRecord.definitionId heq, ?_⟩
        rintro _ ⟨⟩
        exact congrArg ExecutionRecord.state heq
      · rintro ⟨hdefinition, hsame⟩
        rw [← hdefinition, ← hsame _ rfl]
  | location h => exact iff_of_true rfl trivial
  | sequence h => exact iff_of_true rfl trivial

/-- Taking a slice over fails at the first entry that is wrong. What shows of the component is as before
then, unless its record is held and differs from what the slice tells in front of that entry. -/
theorem adopt_unseen_iff_spares (component : Component) (slice : Slice) :
    (∀ error after, component.adopt slice = (.error error, after) ↔
      ∃ fault, error = .context fault ∧ component.Halts slice fault after) ∧
    ∀ error after, component.adopt slice = (.error error, after) →
      (after.appearance = component.appearance ↔ component.Spares slice) := by
  refine ⟨fun error after => ⟨halts_of_adopt, ?_⟩, fun error after h => ?_⟩
  · rintro ⟨fault, rfl, hhalts⟩
    exact adopt_of_halts hhalts
  · obtain ⟨fault, _, hhalts⟩ := halts_of_adopt h
    exact appearance_eq_iff_spares hhalts

/-- The slice of an execution elsewhere, with a result that is none. -/
def garbled : Slice :=
  .ofList
    [(definitionKey, .text "elsewhere"), (stateKey, .record [("Name", .text "Carry")]),
      (resultKey, .bool true)]

/-- What a record becomes of which the slice is taken over up to the garbled result. -/
def misled (record : ExecutionRecord) : ExecutionRecord :=
  { record with definitionId := some "elsewhere", state := some { name := "Carry", data := none } }

def garbledFault : ContextError :=
  .invalidValue resultKey (.invalidType (.bool true) (.record "ExecutionResult"))

theorem halts_garbled (hheld : handle.execution.held = some record) :
    Halts garbled (.execution handle) garbledFault (.execution (handle.holding (misled record))) :=
  .result hheld rfl rfl rfl

/-- An execution that has ended, with its record in its context. -/
def concluded : Handle :=
  { execution :=
      { id := "e1"
        held := some
          { definitionId := some "here"
            state := none
            result := some (.succeeded none) } }
    site := .fresh false }

theorem adopt_unseen_iff_spares_concluded :
    ∃ after, adopt garbled (.execution concluded) = (.error (.context garbledFault), after) ∧
      (after.appearance = appearance (.execution concluded) ↔
        Spares garbled (.execution concluded)) ∧
      ¬ Spares garbled (.execution concluded) := by
  have hhalts : Halts garbled (.execution concluded) garbledFault _ := halts_garbled rfl
  have hadopt := adopt_of_halts hhalts
  refine ⟨_, hadopt, (adopt_unseen_iff_spares (.execution concluded) garbled).2 _ _ hadopt, ?_⟩
  rw [spares_of_held_iff rfl rfl]
  rintro ⟨hdefinition, _⟩
  exact absurd hdefinition (by decide)

/-- A new execution is ended, and then fails to take a slice over. After that its handle shows the state
of the slice beside the result. -/
theorem adopt_garbled_shows :
    ∃ handle,
      Handle.register .errand { execution := .opened (.fresh false) "e1", site := .fresh false } =
        .ok () handle ∧
      let ended := handle.operate (.setResult (.succeeded none))
      Action.answer (Handle.current ended) = .ok (none, some (.succeeded none)) ∧
      ∃ after,
        adopt garbled (.execution ended) = (.error (.context garbledFault), .execution after) ∧
        Action.answer (Handle.current after) =
          .ok (some { name := "Carry", data := none }, some (.succeeded none)) := by
  have hlocal : Site.IsLocal (.fresh false) := ⟨rfl, rfl⟩
  refine ⟨_, Site.register_apply hlocal "e1" .errand, rfl, ?_⟩
  exact ⟨_, adopt_of_halts (halts_garbled rfl), rfl⟩

end Component

end Workflow
