import Workflow.Proofs.Office.Sound

/-!
# What has ended stays as it is

An executor that shows a result and no state turns every further call away, and such a call leaves
nothing behind. Where executions are kept in a table, that holds of all executors of the execution.
Otherwise it holds of the executor that shows the result, and of those that take over from it, directly
or not. Nobody else can start the execution again, as long as it is not created anew.
-/

namespace Workflow

/-- Whether a record tells that its execution has ended with a result. -/
structure ExecutionRecord.EndsIn (record : ExecutionRecord) (result : ExecutionResult) : Prop where
  state : record.state = none
  result : record.result = some result

namespace Stage

/-- Whether an execution shows a result and no state, and every call finds that it has ended and
changes nothing, however hand-offs are answered. A task's outcome is not even asked for. -/
structure Settled (stage : Stage) (result : ExecutionResult) : Prop where
  current : current stage = .ok (none, some result) stage
  dispatch : ∀ rejection input, dispatch input (stage.facing rejection) =
    .ok (.finished result) (stage.facing rejection)
  runTask : ∀ {ρ ε : Type} (worker : Worker ρ ε) rejection resource input memory,
    worker.runTask resource input (stage.facing rejection, memory) =
      .error (.alreadyFinished result.status) (stage.facing rejection, memory)

variable {stage : Stage} {record : ExecutionRecord} {machine : Machine} {result : ExecutionResult}

theorem settled_of_stands (h : stage.Stands record machine) (hends : record.EndsIn result) :
    stage.Settled result := by
  refine { current := ?current, dispatch := ?dispatch, runTask := ?runTask }
  case current =>
    rw [current_of_recorded h.recorded, hends.state, hends.result]
  case dispatch =>
    intro rejection input
    exact dispatch_of_finished (h.facing rejection) hends.state hends.result input
  case runTask =>
    intro ρ ε worker rejection resource input memory
    rw [Worker.runTask_of_idle (h.facing rejection).recorded hends.state, hends.result]
    rfl

/-- Whatever an executor is asked whose execution has ended, nothing changes. -/
theorem serve_of_ended (h : stage.Stands record machine) (hends : record.EndsIn result)
    (rejection : Option String) (request : Request) :
    (stage.serve rejection request).2 = stage.facing rejection := by
  have hfacing := h.facing rejection
  unfold serve
  cases request with
  | dispatch input =>
      have hdispatch := dispatch_of_finished hfacing hends.state hends.result input
      simp only [Request.action, Action.bind_of_ok hdispatch, Action.pure_apply]
  | runTask resource input report =>
      have hidle : Session.runTask resource input report (stage.facing rejection) =
          .error (idleError record.result) (stage.facing rejection) := by
        rw [Session.runTask_eq_bind]
        exact Action.bind_of_error (taskInFlight_of_idle hfacing.recorded hends.state) _
      simp only [Request.action, Action.bind_of_error hidle]
  | exportContext =>
      have hexport := exportContext_apply hfacing.isLocal.announcement
      simp only [Request.action, Action.bind_of_ok hexport, Action.pure_apply]
  | current =>
      have hcurrent := current_of_recorded hfacing.recorded
      simp only [Request.action, Action.bind_of_ok hcurrent, Action.pure_apply]
  | definition =>
      have hdefinition := definition_of_stands hfacing
      simp only [Request.action, Action.bind_of_ok hdefinition, Action.pure_apply]

end Stage

namespace Site

/-- Whether an execution has ended at a site, wherever it is kept. -/
def Ended (site : Site) (execution : Execution) (result : ExecutionResult) : Prop :=
  ∃ record, Handle.record { execution, site } = .ok record ∧ record.EndsIn result

/-- Where executions are kept in a table, an executor holds nothing but an identifier. -/
theorem Employs.execution_eq {site : Site} {id : String} {executor : Executor}
    (h : site.Employs id executor) (hcentral : site.central = true) :
    executor.execution = { id, held := none } := by
  have hheld := Option.isNone_iff_eq_none.mp (h.kept.trans hcentral)
  have hid : executor.execution.id = id := h.executionId
  exact congrArg₂ Execution.mk hid hheld

end Site

/-- Whether the executor with a number at a desk is bound to know that an execution has ended, once the
one at a slot knows. -/
def Desk.IsAbreast (desk : Desk) (slot index : Nat) : Prop :=
  index = slot ∨ desk.executors.length ≤ index

/-- Whether a deed for an execution that has ended at a slot of a desk goes on from there. Where
executions are kept in a table, everything does but to create it anew. -/
def Deed.GoesOn (desk : Desk) (slot : Nat) (central : Bool) : Deed → Prop
  | .create _ _ => False
  | .hydrate _ source =>
    central = true ∨ ∃ index, source = .exported index ∧ desk.exports.length ≤ index
  | .ask index _ => central = true ∨ desk.IsAbreast slot index

namespace Office

/-- An office after visits that changed nothing of an execution that had ended. -/
structure Rests (id : String) (result : ExecutionResult) (office later : Office) : Prop where
  sound : later.Sound
  central : later.site.central = office.site.central
  record : later.site.table.get? id = office.site.table.get? id
  tasks : later.tasksOf id = office.tasksOf id
  lines : later.linesOf id = office.linesOf id
  executors : ∃ heirs, (later.desk id).executors = (office.desk id).executors ++ heirs ∧
    ∀ heir ∈ heirs, office.site.Ended heir.execution result
  exports : ∃ contexts, (later.desk id).exports = (office.desk id).exports ++ contexts ∧
    ∀ context ∈ contexts, ∃ executor, later.site.Employs id executor ∧
      office.site.Ended executor.execution result ∧ context = executor.exported (.plain homeShelf)

variable {office later : Office} {id : String} {result : ExecutionResult} {executor found : Executor}
  {slot : Nat} {rejection : Option String}

theorem Sound.rests_refl (h : office.Sound) (id : String) (result : ExecutionResult) :
    Rests id result office office :=
  { sound := h
    central := rfl
    record := rfl
    tasks := rfl
    lines := rfl
    executors := ⟨[], (List.append_nil _).symm, List.forall_mem_nil _⟩
    exports := ⟨[], (List.append_nil _).symm, List.forall_mem_nil _⟩ }

/-- An executor of an execution that had ended still finds it so. -/
theorem Rests.stands (h : Rests id result office later) (hemploys : later.site.Employs id executor)
    (hended : office.site.Ended executor.execution result) :
    ∃ record machine, Stage.Stands { executor, site := later.site } record machine ∧
      record.EndsIn result := by
  obtain ⟨record, hrecord, hends⟩ := hended
  have htable : later.site.table.get? executor.execution.id =
      office.site.table.get? executor.execution.id := by
    rw [show executor.execution.id = id from hemploys.executionId]
    exact h.record
  have hrecorded : (Stage.handle { executor, site := later.site }).record = .ok record := by
    rw [← hrecord]
    exact Handle.record_congr rfl htable
  obtain ⟨digest, machine, hdigest, hfind⟩ := h.sound.knows_of_record rfl hemploys hrecorded
  refine ⟨record, machine, ⟨h.sound.isLocal, hrecorded, digest, hdigest, ?_⟩, hends⟩
  change later.site.library.find? later.site.definitions.home digest = _
  rw [h.sound.definitions]
  exact hfind

theorem Rests.settled (h : Rests id result office later) (hemploys : later.site.Employs id executor)
    (hended : office.site.Ended executor.execution result) :
    Stage.Settled { executor, site := later.site } result := by
  obtain ⟨record, machine, hstands, hends⟩ := h.stands hemploys hended
  exact Stage.settled_of_stands hstands hends

/-- A visit for another execution changes nothing. -/
theorem Rests.step_other (h : Rests id result office later) {visit : Visit}
    (hne : id ≠ visit.execution) : Rests id result office (later.step visit).2 := by
  have hgrows := h.sound.grows_step visit
  have hsame := h.sound.sameFor_step hne
  refine
    { sound := h.sound.step visit
      central := hgrows.central.trans h.central
      record := hsame.record.trans h.record
      tasks := hsame.tasks.trans h.tasks
      lines := hsame.lines.trans h.lines
      executors := ?executors
      exports := ?exports }
  case executors =>
    rw [hsame.desk]
    exact h.executors
  case exports =>
    obtain ⟨contexts, hexports, hcontexts⟩ := h.exports
    rw [hsame.desk]
    refine ⟨contexts, hexports, ?_⟩
    intro context hcontext
    obtain ⟨executor, hemploys, hended⟩ := hcontexts context hcontext
    exact ⟨executor, hemploys.grows hgrows, hended⟩

/-- Whoever takes over from an executor of an execution that has ended is one more executor of it. -/
theorem Rests.hydrate (h : Rests id result office later) (hemploys : later.site.Employs id executor)
    (hended : office.site.Ended executor.execution result) {source : Source}
    (hcontext : later.context? id source = some (executor.exported (.plain homeShelf)))
    (executorId : String) :
    Rests id result office (later.step ⟨id, rejection, .hydrate executorId source⟩).2 := by
  have hsound := h.sound.step ⟨id, rejection, .hydrate executorId source⟩
  rw [step_hydrate h.sound hemploys hcontext] at hsound ⊢
  refine
    { sound := hsound
      central := h.central
      record := h.record
      tasks := h.tasks
      lines := h.lines
      executors := ?executors
      exports := ?exports }
  case executors =>
    obtain ⟨heirs, hexecutors, hheirs⟩ := h.executors
    refine ⟨heirs ++ [{ executor with executorId }], ?_, ?_⟩
    · rw [desk_seat_self, hexecutors, List.append_assoc]
    · intro heir hheir
      rcases List.mem_append.mp hheir with hheir | hheir
      · exact hheirs heir hheir
      · rw [List.mem_singleton.mp hheir]
        exact hended
  case exports =>
    obtain ⟨contexts, hexports, hcontexts⟩ := h.exports
    rw [desk_seat_self]
    refine ⟨contexts, hexports, ?_⟩
    intro context hcontext
    obtain ⟨other, hother, hrest⟩ := hcontexts context hcontext
    exact ⟨other, hother.grows (later.site.grows_facing rejection), hrest⟩

/-- An executor of an execution that has ended can only be made to export it. -/
theorem Rests.ask (h : Rests id result office later)
    (hslot : (later.desk id).executors[slot]? = some executor)
    (hended : office.site.Ended executor.execution result) (request : Request) :
    Rests id result office (later.step ⟨id, rejection, .ask slot request⟩).2 := by
  have hemploys := h.sound.executors id executor (List.mem_of_getElem? hslot)
  obtain ⟨record, machine, hstands, hends⟩ := h.stands hemploys hended
  have hafter := Stage.serve_of_ended hstands hends rejection request
  have hexported : ∀ context ∈ exportedBy
      (Stage.serve { executor, site := later.site } rejection request).1,
      context = executor.exported (.plain homeShelf) := by
    intro context hcontext
    rw [Stage.context_of_serve hstands.isLocal.announcement (mem_exportedBy.mp hcontext)]
    exact congrArg executor.exported h.sound.definitions
  have hsound := h.sound.step ⟨id, rejection, .ask slot request⟩
  rw [step_ask hslot, hafter] at hsound ⊢
  generalize (Stage.serve { executor, site := later.site } rejection request).1 = answer
    at hexported hsound ⊢
  refine
    { sound := hsound
      central := h.central
      record := h.record
      tasks := h.tasks
      lines := h.lines
      executors := ?executors
      exports := ?exports }
  case executors =>
    have hunchanged : (later.desk id).executors.set slot executor = (later.desk id).executors := by
      obtain ⟨hlt, hget⟩ := List.getElem?_eq_some_iff.mp hslot
      rw [← hget]
      exact List.set_getElem_self hlt
    rw [desk_heard_self]
    change ∃ heirs, (later.desk id).executors.set slot executor = _ ∧ _
    rw [hunchanged]
    exact h.executors
  case exports =>
    obtain ⟨contexts, hexports, hcontexts⟩ := h.exports
    refine ⟨contexts ++ exportedBy answer, ?_, ?_⟩
    · rw [desk_heard_self, hexports, List.append_assoc]
    · intro context hcontext
      have hgrows := later.site.grows_facing rejection
      rcases List.mem_append.mp hcontext with hcontext | hcontext
      · obtain ⟨other, hother, hrest⟩ := hcontexts context hcontext
        exact ⟨other, hother.grows hgrows, hrest⟩
      · exact ⟨executor, hemploys.grows hgrows, hended, hexported context hcontext⟩

section Runs

variable (hslot : (office.desk id).executors[slot]? = some executor)
  (hended : office.site.Ended executor.execution result)

include hslot

theorem Rests.at_slot (h : Rests id result office later) :
    (later.desk id).executors[slot]? = some executor := by
  obtain ⟨heirs, hexecutors, _⟩ := h.executors
  obtain ⟨hlt, _⟩ := List.getElem?_eq_some_iff.mp hslot
  rw [hexecutors, List.getElem?_append_left hlt, hslot]

include hended

/-- An execution that has ended in the table has ended for all who are employed. -/
theorem Rests.ended_of_central (h : Rests id result office later)
    (hcentral : office.site.central = true) (hemploys : later.site.Employs id found) :
    office.site.Ended found.execution result := by
  have hslotted := h.sound.executors id executor (List.mem_of_getElem? (h.at_slot hslot))
  have hlater := h.central.trans hcentral
  rw [hemploys.execution_eq hlater, ← hslotted.execution_eq hlater]
  exact hended

/-- Whoever may be asked finds that the execution has ended. -/
theorem Rests.ended (h : Rests id result office later) {index : Nat}
    (hindex : office.site.central = true ∨ (office.desk id).IsAbreast slot index)
    (hfound : (later.desk id).executors[index]? = some found) :
    office.site.Ended found.execution result := by
  rcases hindex with hcentral | rfl | hlate
  · exact h.ended_of_central hslot hended hcentral
      (h.sound.executors id found (List.mem_of_getElem? hfound))
  · rw [h.at_slot hslot] at hfound
    rwa [← Option.some.inj hfound]
  · obtain ⟨heirs, hexecutors, hheirs⟩ := h.executors
    rw [hexecutors, List.getElem?_append_right hlate] at hfound
    exact hheirs found (List.mem_of_getElem? hfound)

/-- Whoever may take over does so from one for whom the execution has ended. -/
theorem Rests.ended_of_source (h : Rests id result office later) {source : Source} {context : Context}
    (hsource : office.site.central = true ∨
      ∃ index, source = .exported index ∧ (office.desk id).exports.length ≤ index)
    (hcontext : later.context? id source = some context) :
    ∃ found, later.site.Employs id found ∧ office.site.Ended found.execution result ∧
      context = found.exported (.plain homeShelf) := by
  rcases hsource with hcentral | ⟨index, rfl, hlate⟩
  · obtain ⟨found, hemploys, hexported⟩ := h.sound.issues_of_source hcontext
    exact ⟨found, hemploys, h.ended_of_central hslot hended hcentral hemploys, hexported⟩
  · obtain ⟨contexts, hexports, hcontexts⟩ := h.exports
    have hget : (later.desk id).exports[index]? = some context := hcontext
    rw [hexports, List.getElem?_append_right hlate] at hget
    exact hcontexts context (List.mem_of_getElem? hget)

theorem Rests.step (h : Rests id result office later) {visit : Visit}
    (hvisit : visit.execution = id →
      visit.deed.GoesOn (office.desk id) slot office.site.central) :
    Rests id result office (later.step visit).2 := by
  by_cases hid : visit.execution = id
  · obtain ⟨execution, rejection, deed⟩ := visit
    obtain rfl : execution = id := hid
    have hdeed := hvisit rfl
    cases deed with
    | create executorId machine => exact hdeed.elim
    | hydrate executorId source =>
        cases hcontext : later.context? execution source with
        | none =>
            rw [step_hydrate_of_absent hcontext]
            exact h
        | some context =>
            obtain ⟨found, hemploys, hfound, rfl⟩ := h.ended_of_source hslot hended hdeed hcontext
            exact h.hydrate hemploys hfound hcontext executorId
    | ask index request =>
        cases hfound : (later.desk execution).executors[index]? with
        | none =>
            rw [step_ask_of_absent hfound]
            exact h
        | some found => exact h.ask hfound (h.ended hslot hended hdeed hfound) request
  · exact h.step_other (Ne.symm hid)

theorem Rests.run (h : Rests id result office later) {visits : List Visit}
    (hvisits : ∀ visit ∈ visits, visit.execution = id →
      visit.deed.GoesOn (office.desk id) slot office.site.central) :
    Rests id result office (later.run visits).2 := by
  induction visits generalizing later with
  | nil => exact h
  | cons visit rest ih =>
      obtain ⟨hvisit, hrest⟩ := List.forall_mem_cons.mp hvisits
      exact ih (h.step hslot hended hvisit) hrest

end Runs

/-- Once an executor shows a result and no state, so it stays, for it and for all who go on from there:
they show the same, turn every call away, and neither queue a task nor write a line. -/
theorem settled_run {central : Bool} {visits rest : List Visit}
    (hoffice : ((start central).run visits).2 = office)
    (hslot : (office.desk id).executors[slot]? = some executor)
    (hcurrent : Stage.current { executor, site := office.site } =
      .ok (none, some result) { executor, site := office.site })
    (hrest : ∀ visit ∈ rest, visit.execution = id →
      visit.deed.GoesOn (office.desk id) slot central) :
    (office.run rest).2.tasksOf id = office.tasksOf id ∧
      (office.run rest).2.linesOf id = office.linesOf id ∧
      ((office.run rest).2.desk id).executors[slot]? = some executor ∧
      ∀ index found, ((office.run rest).2.desk id).executors[index]? = some found →
        central = true ∨ (office.desk id).IsAbreast slot index →
        Stage.Settled { executor := found, site := (office.run rest).2.site } result := by
  have hsound : office.Sound := by
    rw [← hoffice]
    exact (sound_start central).run visits
  have hcentral : office.site.central = central := by
    rw [← hoffice]
    exact (sound_start central).central_run visits
  subst hcentral
  obtain ⟨record, hrecord, hstate, hresult⟩ := Stage.record_of_current hcurrent
  have hended : office.site.Ended executor.execution result := ⟨record, hrecord, hstate, hresult⟩
  have hrests := (hsound.rests_refl id result).run hslot hended hrest
  refine ⟨hrests.tasks, hrests.lines, hrests.at_slot hslot, ?_⟩
  intro index found hfound hindex
  exact hrests.settled (hrests.sound.executors id found (List.mem_of_getElem? hfound))
    (hrests.ended hslot hended hindex hfound)

/-- A parcel is lost by someone who took over its task. -/
def loss : List Visit :=
  [⟨"parcel", none, .create "ada" .errand⟩,
    ⟨"parcel", none, .ask 0 (.dispatch .null)⟩,
    ⟨"parcel", none, .hydrate "bob" (.queued 0)⟩,
    ⟨"parcel", none, .ask 1 (.runTask "courier" .null (.error "storm"))⟩]

def parcelLost : Office :=
  ((start true).run loss).2

def bob : Executor :=
  { execution := { id := "parcel", held := none }
    executorId := "bob"
    sequence := 3 }

/-- The same task is taken over once more, while a letter comes in, and the parcel is dispatched again. -/
def search : List Visit :=
  [⟨"parcel", none, .hydrate "cid" (.queued 0)⟩,
    ⟨"letter", none, .create "dan" .errand⟩,
    ⟨"parcel", some "full", .ask 2 (.runTask "courier" .null (.ok .null))⟩,
    ⟨"parcel", none, .ask 0 (.dispatch .null)⟩]

theorem settled_run_parcelLost :
    (parcelLost.desk "parcel").executors[1]? = some bob ∧
      Stage.current { executor := bob, site := parcelLost.site } =
        .ok (none, some (.failed "Lost" "storm")) { executor := bob, site := parcelLost.site } ∧
      (∀ visit ∈ search, visit.execution = "parcel" →
        visit.deed.GoesOn (parcelLost.desk "parcel") 1 true) ∧
      (parcelLost.run search).2.tasksOf "parcel" = parcelLost.tasksOf "parcel" ∧
      (parcelLost.run search).2.linesOf "parcel" = parcelLost.linesOf "parcel" ∧
      ((parcelLost.run search).2.desk "parcel").executors[1]? = some bob ∧
      ∀ index found, ((parcelLost.run search).2.desk "parcel").executors[index]? = some found →
        true = true ∨ (parcelLost.desk "parcel").IsAbreast 1 index →
        Stage.Settled { executor := found, site := (parcelLost.run search).2.site }
          (.failed "Lost" "storm") := by
  have hlost : (parcelLost.desk "parcel").executors[1]? = some bob ∧
      (Stage.handle { executor := bob, site := parcelLost.site }).record =
        .ok
          { definitionId := some (Machine.contentHash .errand)
            state := none
            result := some (.failed "Lost" "storm") } := by
    decide +kernel
  obtain ⟨hslot, hrecorded⟩ := hlost
  have hcurrent := Stage.current_of_recorded hrecorded
  have hgoesOn : ∀ visit ∈ search, visit.execution = "parcel" →
      visit.deed.GoesOn (parcelLost.desk "parcel") 1 true := by
    simp [search, Deed.GoesOn]
  have hoffice : ((start true).run loss).2 = parcelLost := by
    rw [parcelLost]
  exact ⟨hslot, hcurrent, hgoesOn, settled_run hoffice hslot hcurrent hgoesOn⟩

end Office

end Workflow
