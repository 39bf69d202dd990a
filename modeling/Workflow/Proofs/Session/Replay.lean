import Workflow.Proofs.Session.Handover

/-!
# Asking for a result again

An execution that has ended can be dispatched any number of times more. The machine is looked up before
the result is read, so the answer is the result only while the machine can be looked up, and the failed
look-up otherwise. A context carries the result but not the machine: whoever takes over elsewhere is
answered with the result if the definition is known there.
-/

namespace Workflow

/-- A look-up that fails fills no shelf. -/
theorem DefinitionStore.library_of_refused {store : DefinitionStore} {id : String} {library : Library}
    {error : ComponentError} (h : (store.hydrate id library).1 = .error error) :
    (store.hydrate id library).2 = library := by
  revert h
  unfold hydrate
  cases store.front.bind (library.find? · id) with
  | some machine => exact fun _ => rfl
  | none =>
      cases library.find? store.home id with
      | none => exact fun _ => rfl
      | some machine => cases store.front <;> exact fun h => nomatch h

namespace Stage

variable {stage : Stage} {result : ExecutionResult}

theorem fetched_of_refused {error : ComponentError} (h : stage.lookUp.1 = .error error) :
    stage.change .fetched = stage := by
  have hlibrary : stage.lookUp.2 = stage.site.library := by
    cases hrecord : stage.handle.record with
    | error error =>
        unfold lookUp
        rw [hrecord]
    | ok record =>
        rw [stage.lookUp_of_recorded hrecord] at h ⊢
        cases hid : record.definitionId with
        | none => rfl
        | some id =>
            rw [hid] at h
            exact DefinitionStore.library_of_refused h
  change { stage with site.library := stage.lookUp.2 } = stage
  rw [hlibrary]

theorem current_fetched {value : Option ExecutionState × Option ExecutionResult}
    (h : current stage = .ok value stage) :
    current (stage.change .fetched) = .ok value (stage.change .fetched) := by
  obtain ⟨record, hrecord, hstate, hresult⟩ := record_of_current h
  have hsame : (stage.change .fetched).handle.record = .ok record := hrecord
  rw [current_of_recorded hsame, hstate, hresult]

/-- Of an execution that has ended, the machine is looked up first, and then the result is answered. -/
theorem dispatch_of_ended (h : current stage = .ok (none, some result) stage) (input : Json) :
    dispatch input stage =
      Action.leave ((stage.lookUp.1.map fun _ => .finished result).mapError .component)
        (stage.change .fetched) := by
  have hdefinition := stage.definition_apply
  unfold dispatch
  cases hmachine : stage.lookUp.1 with
  | error error =>
      rw [hmachine] at hdefinition
      exact Action.bind_of_error hdefinition _
  | ok machine =>
      rw [hmachine] at hdefinition
      rw [Action.bind_of_ok hdefinition, Action.bind_of_ok (current_fetched h)]
      rfl

/-- The answers to payloads that are dispatched one after the other, and the stage after the last. -/
def dispatchAll (stage : Stage) : List Json → List (Except ExecutorError Outcome) × Stage
  | [] => ([], stage)
  | input :: rest =>
    let (answers, last) := (Action.stateAfter (dispatch input stage)).dispatchAll rest
    (Action.answer (dispatch input stage) :: answers, last)

/-- Whether dispatching gives the result again and again as long as the machine can be looked up, and
fails as the look-up does otherwise. Nothing is changed but, at the most, a shelf that is read first. -/
structure ReplaysWhileDefined (stage : Stage) (result : ExecutionResult) : Prop where
  defined : ∀ machine, Action.answer (definition stage) = .ok machine →
    ∀ inputs, ∃ library,
      stage.dispatchAll inputs =
        (List.replicate inputs.length (.ok (.finished result)), { stage with site.library := library })
  undefined : ∀ error, Action.answer (definition stage) = .error error →
    ∀ inputs, stage.dispatchAll inputs = (List.replicate inputs.length (.error error), stage)

theorem dispatchAll_of_defined (h : current stage = .ok (none, some result) stage)
    {machine : Machine} (hmachine : stage.lookUp.1 = .ok machine) (inputs : List Json) :
    ∃ library,
      stage.dispatchAll inputs =
        (List.replicate inputs.length (.ok (.finished result)),
          { stage with site.library := library }) := by
  induction inputs generalizing stage with
  | nil => exact ⟨stage.site.library, rfl⟩
  | cons input rest ih =>
      have hfirst := dispatch_of_ended h input
      rw [hmachine] at hfirst
      obtain ⟨library, hrest⟩ := ih (current_fetched h) (stage.lookUp_fetched.trans hmachine)
      refine ⟨library, ?_⟩
      unfold dispatchAll
      rw [hfirst, Action.stateAfter_leave, Action.answer_leave, hrest]
      rfl

theorem dispatchAll_of_undefined (h : current stage = .ok (none, some result) stage)
    {error : ComponentError} (herror : stage.lookUp.1 = .error error) (inputs : List Json) :
    stage.dispatchAll inputs =
      (List.replicate inputs.length (.error (.component error)), stage) := by
  induction inputs with
  | nil => rfl
  | cons input rest ih =>
      have hfirst := dispatch_of_ended h input
      rw [herror, fetched_of_refused herror] at hfirst
      unfold dispatchAll
      rw [hfirst, Action.stateAfter_leave, Action.answer_leave, ih]
      rfl

theorem replaysWhileDefined_of_ended (h : current stage = .ok (none, some result) stage) :
    stage.ReplaysWhileDefined result := by
  refine { defined := ?defined, undefined := ?undefined }
  case defined =>
    intro machine hmachine inputs
    rw [answer_definition] at hmachine
    cases hlookUp : stage.lookUp.1 with
    | error error =>
        rw [hlookUp] at hmachine
        cases hmachine
    | ok found => exact dispatchAll_of_defined h hlookUp inputs
  case undefined =>
    intro error herror inputs
    rw [answer_definition] at herror
    cases hlookUp : stage.lookUp.1 with
    | error refusal =>
        rw [hlookUp] at herror
        cases herror
        exact dispatchAll_of_undefined h hlookUp inputs
    | ok found =>
        rw [hlookUp] at herror
        cases herror

section Elsewhere

variable {host : Site}

/-- Somebody who has taken over elsewhere from the context of an execution that was carried along. -/
structure CarriedTo (stage : Stage) (host : Site) (heir : Stage) : Prop where
  taken : ∃ context, stage.executor.context stage.site = .ok context ∧
    Executor.hydrate context host = .ok heir.executor heir.site
  site : heir.site =
    { host with
      definitions.location := stage.site.definitions.location
      issued := host.issued + 1 }
  execution : heir.executor.execution = stage.executor.execution

theorem exists_carriedTo (hkept : stage.executor.IsKept false)
    (hstage : stage.site.definitions.announcement = none)
    (hhost : host.definitions.announcement = none) (hcentral : host.central = false) :
    ∃ heir, stage.CarriedTo host heir := by
  -- Said of any new identifier, so that the one that is given out is not computed.
  have hcarried : ∀ executorId,
      Executor.hydrate (stage.executor.exported stage.site.definitions) host =
        .ok { stage.executor with executorId }
          { host with
            definitions.location := stage.site.definitions.location
            issued := host.issued + 1 } →
      ∃ heir, stage.CarriedTo host heir :=
    fun _ htaken => ⟨⟨_, _⟩, ⟨_, stage.executor.context_eq_ok hstage, htaken⟩, rfl, rfl⟩
  exact hcarried _
    (Executor.hydrate_exported hstage hhost (hkept.kept.trans hcentral.symm) hkept.defined)

variable {heir : Stage}

theorem CarriedTo.handle_record {record : ExecutionRecord} (h : stage.CarriedTo host heir)
    (hheld : stage.executor.execution.held = some record) : heir.handle.record = .ok record := by
  apply heir.record_of_held
  rw [h.execution, hheld]

/-- The result is carried along. -/
theorem CarriedTo.current {value : Option ExecutionState × Option ExecutionResult}
    (h : stage.CarriedTo host heir) (hkept : stage.executor.IsKept false)
    (hcurrent : current stage = .ok value stage) : Stage.current heir = .ok value heir := by
  obtain ⟨held, hheld⟩ := Option.isSome_iff_exists.mp (Option.isNone_eq_false_iff.mp hkept.kept)
  obtain ⟨record, hrecord, hstate, hresult⟩ := record_of_current hcurrent
  obtain rfl := Except.ok.inj ((stage.record_of_held hheld).symm.trans hrecord)
  rw [current_of_recorded (h.handle_record hheld), hstate, hresult]

/-- The machine is not: it is the one that is stored at the host, if any is. -/
theorem CarriedTo.definition (h : stage.CarriedTo host heir) (hlocal : host.IsLocal)
    {record : ExecutionRecord} (hheld : stage.executor.execution.held = some record) {id : String}
    (hid : record.definitionId = some id) :
    Action.answer (Stage.definition heir) =
      (host.library.find? host.definitions.home id).elim
        (.error (.component (.definitionNotFound id))) .ok := by
  have hfront : ({ host.definitions with
      location := stage.site.definitions.location } : DefinitionStore).front = none := hlocal.front
  rw [answer_definition, lookUp_of_recorded _ (h.handle_record hheld), hid, h.site]
  cases hfind : host.library.find? host.definitions.home id with
  | none =>
      simp only
      rw [DefinitionStore.hydrate_of_missing hfront hfind]
      rfl
  | some machine =>
      simp only
      rw [DefinitionStore.hydrate_of_found hfront hfind]
      rfl

end Elsewhere

/-- Dispatching an execution that has ended gives its result for as long as the machine can be looked up.
Where somebody takes over from its context, that is for as long as the definition is stored there. -/
theorem replays_while_defined (hended : current stage = .ok (none, some result) stage) :
    stage.ReplaysWhileDefined result ∧
      ∀ host : Site, stage.executor.IsKept false → stage.site.definitions.announcement = none →
        host.IsLocal → host.central = false →
        ∃ heir, stage.CarriedTo host heir ∧ heir.ReplaysWhileDefined result ∧
          ∀ record id, stage.executor.execution.held = some record → record.definitionId = some id →
            Action.answer (definition heir) =
              (host.library.find? host.definitions.home id).elim
                (.error (.component (.definitionNotFound id))) .ok := by
  refine ⟨replaysWhileDefined_of_ended hended, ?_⟩
  intro host hkept hstage hhost hcentral
  obtain ⟨heir, hcarried⟩ := exists_carriedTo hkept hstage hhost.announcement hcentral
  exact ⟨heir, hcarried, replaysWhileDefined_of_ended (hcarried.current hkept hended),
    fun _ _ hheld hid => hcarried.definition hhost hheld hid⟩

section Delivered

/-- The record of an errand that has come to its end. -/
def deliveredRecord : ExecutionRecord :=
  { ExecutionRecord.following Machine.errand.contentHash with result := some (.succeeded none) }

/-- An errand that is carried in its context and has come to its end. -/
def delivered : Stage :=
  ((Site.fresh false).created .errand).withRecord deliveredRecord

theorem held_delivered : delivered.executor.execution.held = some deliveredRecord := by
  unfold delivered
  rw [held_withRecord, Site.held_created]
  rfl

theorem current_delivered :
    current delivered = .ok (none, some (.succeeded none)) delivered :=
  current_of_recorded (delivered.record_of_held held_delivered)

theorem isKept_delivered : delivered.executor.IsKept false := by
  refine ⟨by rw [held_delivered]; rfl, ?_⟩
  intro record hrecord
  rw [held_delivered] at hrecord
  cases hrecord
  exact Option.some_ne_none _

theorem site_delivered :
    delivered.site.IsLocal ∧ delivered.site.central = false ∧
      delivered.site.library.find? delivered.site.definitions.home Machine.errand.contentHash =
        some .errand := by
  have hdelivered : delivered.Stands deliveredRecord .errand :=
    (Site.stands_created_fresh false .errand).withRecord rfl
  obtain ⟨hlocal, -, id, hid, hfind⟩ := hdelivered
  cases hid
  refine ⟨hlocal, ?_, hfind⟩
  unfold delivered
  rw [site_withRecord]
  exact Site.central_created (.fresh false) .errand

/-- The errand is replayed by somebody who takes over where it was made. -/
theorem replays_delivered :
    current delivered = .ok (none, some (.succeeded none)) delivered ∧
      ∃ heir, delivered.CarriedTo delivered.site heir ∧
        (heir.dispatchAll [.null, .emptyObject]).1 =
          [.ok (.finished (.succeeded none)), .ok (.finished (.succeeded none))] := by
  obtain ⟨hlocal, hcentral, hfind⟩ := site_delivered
  obtain ⟨heir, hcarried, hreplays, hdefinition⟩ :=
    (replays_while_defined current_delivered).2 delivered.site isKept_delivered
      hlocal.announcement hlocal hcentral
  have hmachine := hdefinition deliveredRecord _ held_delivered rfl
  rw [hfind] at hmachine
  obtain ⟨library, hanswers⟩ := hreplays.defined _ hmachine [.null, .emptyObject]
  refine ⟨current_delivered, heir, hcarried, ?_⟩
  rw [hanswers]
  rfl

/-- Where the definition is not stored, the result is carried along and not given. -/
theorem not_replayed_delivered :
    ∃ heir, delivered.CarriedTo (Site.fresh false) heir ∧
      current heir = .ok (none, some (.succeeded none)) heir ∧
      Action.answer (dispatch .null heir) =
        .error (.component (.definitionNotFound Machine.errand.contentHash)) := by
  obtain ⟨hlocal, -, -⟩ := site_delivered
  obtain ⟨heir, hcarried⟩ :=
    @exists_carriedTo _ (Site.fresh false) isKept_delivered hlocal.announcement rfl rfl
  have hcurrent := hcarried.current isKept_delivered current_delivered
  have hmissing : Action.answer (definition heir) =
      .error (.component (.definitionNotFound Machine.errand.contentHash)) :=
    hcarried.definition ⟨rfl, rfl⟩ held_delivered rfl
  have hanswers := (replaysWhileDefined_of_ended hcurrent).undefined _ hmissing [.null]
  exact ⟨heir, hcarried, hcurrent, (List.cons.inj (congrArg Prod.fst hanswers)).1⟩

end Delivered

end Stage

end Workflow
