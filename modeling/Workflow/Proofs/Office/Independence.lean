import Workflow.Proofs.Office.Sound

/-!
# Executions at one office do not meet

Two offices agree on an execution if what belongs to it is the same at both and the one knows all machines
that the other knows. Visits for the execution keep that, made at both; visits for others keep it, made at
one alone. So an execution goes the way it would have gone without the others.
-/

namespace Workflow

namespace Office

/-- Whether an office where everybody comes and one where visits for a single execution are made agree on
that execution. -/
structure Agrees (id : String) (known : Machine → Prop) (together alone : Office) : Prop where
  sound : together.Sound
  aloneSound : alone.Sound
  grows : alone.site.Grows together.site
  holds : together.site.library.HoldsOnly homeShelf known
  same : SameFor id alone together

variable {id : String} {known : Machine → Prop} {together alone : Office}

theorem agrees_start (central : Bool) (id : String) (known : Machine → Prop) :
    Agrees id known (start central) (start central) :=
  { sound := sound_start central
    aloneSound := sound_start central
    grows := ⟨rfl, fun _ _ _ hfind => hfind⟩
    holds := fun _ _ hfind => nomatch hfind
    same := .refl id _ }

section Same

variable {before after : Office} {executor : Executor}

theorem SameFor.seat (h : SameFor id before after) {site other : Site}
    (hlogs : site.log = before.site.log ∧ other.log = after.site.log)
    (hqueues : site.queue = before.site.queue ∧ other.queue = after.site.queue)
    (hrecord : other.table.get? id = site.table.get? id) :
    SameFor id (before.seat id executor site) (after.seat id executor other) := by
  refine { desk := ?desk, record := hrecord, tasks := ?tasks, lines := ?lines }
  case desk => rw [desk_seat_self, desk_seat_self, h.desk]
  case tasks =>
    change other.queue.pending.filter _ = site.queue.pending.filter _
    rw [hqueues.1, hqueues.2]
    exact h.tasks
  case lines =>
    change linesFor id other.log = linesFor id site.log
    rw [hlogs.1, hlogs.2]
    exact h.lines

theorem SameFor.heard (h : SameFor id before after) {slot : Nat}
    {answer : Except ExecutorError Reply} {stage other : Stage}
    (hexecutor : other.executor = stage.executor)
    (hrecord : other.site.table.get? id = stage.site.table.get? id)
    (htasks : ∃ tasks, stage.site.queue.pending = before.site.queue.pending ++ tasks ∧
      other.site.queue.pending = after.site.queue.pending ++ tasks)
    (hlines : ∃ lines, stage.site.log = before.site.log ++ lines ∧
      other.site.log = after.site.log ++ lines) :
    SameFor id (before.heard id slot answer stage) (after.heard id slot answer other) := by
  obtain ⟨tasks, htasks, hothers⟩ := htasks
  obtain ⟨lines, hlines, hotherLines⟩ := hlines
  refine { desk := ?desk, record := hrecord, tasks := ?tasks, lines := ?lines }
  case desk => rw [desk_heard_self, desk_heard_self, h.desk, hexecutor]
  case tasks =>
    change other.site.queue.pending.filter _ = stage.site.queue.pending.filter _
    rw [htasks, hothers, List.filter_append, List.filter_append]
    exact congrArg (· ++ _) h.tasks
  case lines =>
    change linesFor id other.site.log = linesFor id stage.site.log
    unfold linesFor
    rw [hlines, hotherLines, List.filter_append, List.filter_append]
    exact congrArg (· ++ _) h.lines

end Same

section Own

variable {visit : Visit} {executor : Executor}

/-- Offices that agree agree after a visit for the execution, if that leaves the same of it at both. -/
theorem Agrees.step_own (h : Agrees id known together alone)
    (hnew : ∀ machine, visit.machine? = some machine → known machine)
    (hdistinct : ∀ first second, known first → known second →
      first.contentHash = second.contentHash → first = second)
    (hsame : SameFor id (alone.step visit).2 (together.step visit).2) :
    Agrees id known (together.step visit).2 (alone.step visit).2 := by
  obtain ⟨hcentral, hlibrary⟩ := h.sound.library_step visit
  obtain ⟨haloneCentral, haloneLibrary⟩ := h.aloneSound.library_step visit
  refine
    { sound := h.sound.step visit
      aloneSound := h.aloneSound.step visit
      grows := ⟨?central, ?library⟩
      holds := h.sound.holds_step h.holds hnew
      same := hsame }
  case central => rw [hcentral, haloneCentral, h.grows.central]
  case library =>
    rw [hlibrary, haloneLibrary]
    cases hmachine : visit.machine? with
    | none => exact h.grows.library
    | some machine =>
        have hknown := hnew machine hmachine
        exact h.grows.library.insertIfAbsent h.holds fun other hother =>
          hdistinct other machine hother hknown

/-- Whether a visit is answered alike at both offices and leaves the same of the execution. -/
def Matches (id : String) (together alone : Office) (visit : Visit) : Prop :=
  (together.step visit).1 = (alone.step visit).1 ∧
    SameFor id (alone.step visit).2 (together.step visit).2

theorem Agrees.create (h : Agrees id known together alone) (rejection : Option String)
    (executorId : String) (machine : Machine) :
    Matches id together alone ⟨id, rejection, .create executorId machine⟩ := by
  let site : Site := { together.site with rejection }
  let other : Site := { alone.site with rejection }
  have hcentral : site.central = other.central := h.grows.central
  have hsite := site.site_opening id executorId machine
  have hother := other.site_opening id executorId machine
  have hexecutor : (other.opening id executorId machine).executor =
      (site.opening id executorId machine).executor := by
    rw [Site.executor_opening, Site.executor_opening, hcentral]
  unfold Matches
  rw [step_create h.sound, step_create h.aloneSound]
  refine ⟨rfl, ?_⟩
  change SameFor id (alone.seat id (other.opening id executorId machine).executor _)
    (together.seat id (site.opening id executorId machine).executor _)
  rw [hexecutor]
  apply h.same.seat
  · rw [hsite, hother]
    exact ⟨rfl, rfl⟩
  · rw [hsite, hother]
    exact ⟨rfl, rfl⟩
  · rw [Site.get?_table_opening, Site.get?_table_opening, hcentral]
    exact if_congr Iff.rfl rfl h.same.record

theorem Agrees.hydrate (h : Agrees id known together alone) (rejection : Option String)
    (executorId : String) (source : Source) :
    Matches id together alone ⟨id, rejection, .hydrate executorId source⟩ := by
  have htogether := h.same.context?_eq source
  unfold Matches
  cases hcontext : alone.context? id source with
  | none =>
      rw [step_hydrate_of_absent (htogether.trans hcontext), step_hydrate_of_absent hcontext]
      exact ⟨rfl, h.same⟩
  | some context =>
      obtain ⟨executor, hemploys, rfl⟩ := h.aloneSound.issues_of_source hcontext
      rw [step_hydrate h.sound (hemploys.grows h.grows) (htogether.trans hcontext),
        step_hydrate h.aloneSound hemploys hcontext]
      exact ⟨rfl, h.same.seat ⟨rfl, rfl⟩ ⟨rfl, rfl⟩ h.same.record⟩

/-- An executor sees the same at both offices. -/
theorem Agrees.view_eq (h : Agrees id known together alone)
    (hemploys : alone.site.Employs id executor) (rejection : Option String) :
    (Stage.facing { executor, site := alone.site } rejection).view =
      (Stage.facing { executor, site := together.site } rejection).view := by
  let stage : Stage := Stage.facing { executor, site := alone.site } rejection
  let other : Stage := Stage.facing { executor, site := together.site } rejection
  have hrecord : other.handle.record = stage.handle.record := by
    have htable : other.site.table.get? executor.executionId =
        stage.site.table.get? executor.executionId := by
      rw [hemploys.executionId]
      exact h.same.record
    exact Handle.record_congr rfl htable
  have hdefinition : ∀ record digest, stage.handle.record = .ok record →
      record.definitionId = some digest →
      (other.site.definitions.hydrate digest other.site.library).1 =
        (stage.site.definitions.hydrate digest stage.site.library).1 := by
    intro record digest hfound hdigest
    obtain ⟨known, machine, hknown, hfind⟩ := h.aloneSound.knows_of_record rfl hemploys hfound
    obtain rfl : known = digest := Option.some.inj (hknown.symm.trans hdigest)
    change (together.site.definitions.hydrate known together.site.library).1 =
      (alone.site.definitions.hydrate known alone.site.library).1
    rw [h.sound.definitions, h.aloneSound.definitions,
      DefinitionStore.hydrate_of_found rfl (h.grows.library _ _ _ hfind),
      DefinitionStore.hydrate_of_found rfl hfind]
  have hlocation : other.site.definitions.location = stage.site.definitions.location := by
    change together.site.definitions.location = alone.site.definitions.location
    rw [h.sound.definitions, h.aloneSound.definitions]
  have hview : other.view = stage.view :=
    Stage.view_congr rfl rfl hrecord hdefinition hlocation rfl
  exact hview.symm

theorem Agrees.ask (h : Agrees id known together alone) (rejection : Option String) (slot : Nat)
    (request : Request) : Matches id together alone ⟨id, rejection, .ask slot request⟩ := by
  have hdesk : (together.desk id).executors[slot]? = (alone.desk id).executors[slot]? := by
    rw [h.same.desk]
  unfold Matches
  cases hslot : (alone.desk id).executors[slot]? with
  | none =>
      rw [step_ask_of_absent (hdesk.trans hslot), step_ask_of_absent hslot]
      exact ⟨rfl, h.same⟩
  | some executor =>
      let stage : Stage := { executor, site := alone.site }
      let other : Stage := { executor, site := together.site }
      have hstage : stage.site.definitions.announcement = none := h.aloneSound.isLocal.announcement
      have hother : other.site.definitions.announcement = none := h.sound.isLocal.announcement
      have hview : (stage.facing rejection).view = (other.facing rejection).view :=
        h.view_eq (h.aloneSound.executors id executor (List.mem_of_getElem? hslot)) rejection
      obtain ⟨hanswer, hafter, halike⟩ := Stage.serve_congr hstage hother hview request
      have hconfined := Stage.confined_serve hstage rejection request
      have hotherConfined := Stage.confined_serve hother rejection request
      rw [step_ask (hdesk.trans hslot), step_ask hslot]
      refine ⟨congrArg some hanswer.symm, ?_⟩
      change SameFor id (alone.heard id slot (stage.serve rejection request).1 _)
        (together.heard id slot (other.serve rejection request).1 _)
      rw [← hanswer]
      have hexecutorId : (stage.serve rejection request).2.executor.executorId =
          (other.serve rejection request).2.executor.executorId :=
        hconfined.executorId.trans hotherConfined.executorId.symm
      exact h.same.heard (Stage.executor_eq_of_view hafter hexecutorId).symm
        (Stage.table_serve_eq hstage hother hview h.same.record.symm request).symm halike.queue
        (halike.lines_eq hconfined hotherConfined rfl)

theorem Agrees.matches (h : Agrees id known together alone) (hid : visit.execution = id) :
    Matches id together alone visit := by
  obtain ⟨execution, rejection, deed⟩ := visit
  obtain rfl : execution = id := hid
  cases deed with
  | create executorId machine => exact h.create rejection executorId machine
  | hydrate executorId source => exact h.hydrate rejection executorId source
  | ask slot request => exact h.ask rejection slot request

end Own

/-- A visit for another execution does not show. -/
theorem Agrees.step_other (h : Agrees id known together alone) {visit : Visit}
    (hne : id ≠ visit.execution)
    (hnew : ∀ machine, visit.machine? = some machine → known machine) :
    Agrees id known (together.step visit).2 alone :=
  { sound := h.sound.step visit
    aloneSound := h.aloneSound
    grows := h.grows.trans (h.sound.grows_step visit)
    holds := h.sound.holds_step h.holds hnew
    same := h.same.trans (h.sound.sameFor_step hne) }

/-- An execution goes the way it goes without the others. -/
theorem Agrees.run (h : Agrees id known together alone) {visits : List Visit}
    (hnew : ∀ visit ∈ visits, ∀ machine, visit.machine? = some machine → known machine)
    (hdistinct : ∀ first second, known first → known second →
      first.contentHash = second.contentHash → first = second) :
    (together.run visits).1.filter (·.1 == id) =
        (alone.run (visits.filter (·.execution == id))).1 ∧
      Agrees id known (together.run visits).2
        (alone.run (visits.filter (·.execution == id))).2 := by
  induction visits generalizing together alone with
  | nil => exact ⟨rfl, h⟩
  | cons visit rest ih =>
      obtain ⟨hhead, hrest⟩ := List.forall_mem_cons.mp hnew
      by_cases hid : visit.execution = id
      · obtain ⟨hanswer, hsame⟩ := h.matches hid
        obtain ⟨hanswers, hlast⟩ := ih (h.step_own hhead hdistinct hsame) hrest
        have hown : (visit.execution == id) = true := beq_iff_eq.mpr hid
        rw [List.filter_cons, if_pos hown, run_cons, run_cons, List.filter_cons, if_pos hown, hanswer,
          hanswers]
        exact ⟨rfl, hlast⟩
      · have hother : ¬(visit.execution == id) = true := fun heq => hid (beq_iff_eq.mp heq)
        rw [List.filter_cons, if_neg hother, run_cons, List.filter_cons, if_neg hother]
        exact ih (h.step_other (Ne.symm hid) hhead) hrest

/-- Whoever else comes to an office: as long as no two machines that are brought there share a digest,
the answers for an execution, its tasks and its lines are those that it has alone. -/
theorem run_agrees_alone (central : Bool) (id : String) {visits : List Visit}
    (hdistinct : ∀ first ∈ visits.filterMap Visit.machine?, ∀ second ∈ visits.filterMap Visit.machine?,
      first.contentHash = second.contentHash → first = second) :
    ((start central).run visits).1.filter (·.1 == id) =
        ((start central).run (visits.filter (·.execution == id))).1 ∧
      ((start central).run visits).2.tasksOf id =
        ((start central).run (visits.filter (·.execution == id))).2.tasksOf id ∧
      ((start central).run visits).2.linesOf id =
        ((start central).run (visits.filter (·.execution == id))).2.linesOf id := by
  have hbrought : ∀ visit ∈ visits, ∀ machine, visit.machine? = some machine →
      machine ∈ visits.filterMap Visit.machine? :=
    fun visit hvisit machine hmachine => List.mem_filterMap.mpr ⟨visit, hvisit, hmachine⟩
  obtain ⟨hanswers, hagrees⟩ :=
    (agrees_start central id (· ∈ visits.filterMap Visit.machine?)).run hbrought
      fun first second hfirst hsecond => hdistinct first hfirst second hsecond
  exact ⟨hanswers, hagrees.same.tasks, hagrees.same.lines⟩

/-- A parcel and a letter are brought to one office. The courier takes the parcel while the letter is
turned away, and whoever has the parcel's task reports back. -/
def parcelAndLetter : List Visit :=
  [⟨"parcel", none, .create "ada" .errand⟩,
    ⟨"letter", none, .create "bob" .errand⟩,
    ⟨"parcel", none, .ask 0 (.dispatch .null)⟩,
    ⟨"letter", some "full", .ask 0 (.dispatch .null)⟩,
    ⟨"parcel", none, .hydrate "cid" (.queued 0)⟩,
    ⟨"letter", none, .ask 0 .exportContext⟩,
    ⟨"parcel", none, .ask 1 (.runTask "courier" .null (.error "storm"))⟩]

theorem run_agrees_alone_parcel :
    (∀ first ∈ parcelAndLetter.filterMap Visit.machine?,
      ∀ second ∈ parcelAndLetter.filterMap Visit.machine?,
        first.contentHash = second.contentHash → first = second) ∧
      ((start true).run parcelAndLetter).1.filter (·.1 == "parcel") =
        ((start true).run (parcelAndLetter.filter (·.execution == "parcel"))).1 ∧
      ((start true).run parcelAndLetter).2.tasksOf "parcel" =
        ((start true).run (parcelAndLetter.filter (·.execution == "parcel"))).2.tasksOf "parcel" ∧
      ((start true).run parcelAndLetter).2.linesOf "parcel" =
        ((start true).run (parcelAndLetter.filter (·.execution == "parcel"))).2.linesOf "parcel" := by
  have honly : ∀ machine ∈ parcelAndLetter.filterMap Visit.machine?, machine = .errand := by
    intro machine hmachine
    have hbrought : machine ∈ [Machine.errand, .errand] := hmachine
    simpa using hbrought
  have hdistinct : ∀ first ∈ parcelAndLetter.filterMap Visit.machine?,
      ∀ second ∈ parcelAndLetter.filterMap Visit.machine?,
        first.contentHash = second.contentHash → first = second := by
    intro first hfirst second hsecond _
    rw [honly first hfirst, honly second hsecond]
  exact ⟨hdistinct, run_agrees_alone true "parcel" hdistinct⟩

end Office

end Workflow
