import Workflow.Proofs.Executor.Entries
import Workflow.Proofs.Queue.Ledger

/-!
# What a refusal leaves behind

Nothing is undone where an execution cannot be taken over. The one thing that may have happened by then
is that the store of the site was pointed to where the context says the definitions are, since that is
looked at before the execution is. It goes for a worker, too, that puts the task back.
-/

namespace Workflow

namespace Context

/-- Whether whoever takes over from a context gets so far as to point a site to the definitions. -/
def Points (context : Context) : Prop :=
  ∀ entry ∈ [Entry.version, .executionId, .location], context.IsSound entry

/-- Where a context says the definitions are. -/
def told (context : Context) : Option String :=
  (context.given? .location).map (·.asText)

end Context

/-- What a site is like where nothing could be taken over from a context. -/
structure Site.Refused (site : Site) (context : Context) (after : Site) : Prop where
  pointed : context.Points → after = { site with definitions.location := context.told }
  untouched : ¬ context.Points → after = site

namespace Context

variable {context : Context}

theorem location_eq_told {location : Option String} (h : context.location = .ok location) :
    location = context.told := by
  have hread := context.getAs?_slice .location .text
  change context.location = _ at hread
  rw [h] at hread
  unfold told
  cases hgiven : context.given? .location with
  | none =>
      rw [hgiven] at hread
      exact Except.ok.inj hread
  | some json =>
      rw [hgiven] at hread
      cases htext : Decoder.text.ofJson json with
      | error reason =>
          simp only [htext] at hread
          cases hread
      | ok text =>
          simp only [htext] at hread
          rw [Except.ok.inj hread, Option.map_some, ((Decoder.text_yieldsIff json text).mp htext).2]

/-- A context points a site somewhere just if the entries of the executor and the location are read. -/
theorem points_iff :
    context.Points ↔
      (∃ id, Executor.readOwnSlice (context.slice Executor.spaceName) = .ok id) ∧
        ∃ location, context.location = .ok location := by
  rw [context.judges_readOwnSlice.exists_ok_iff, context.judges_location.exists_ok_iff,
    ← List.forall_mem_append]
  rfl

theorem refused_pointed (site : Site) (context : Context) :
    site.Refused context (site.pointed context) := by
  unfold Site.pointed
  cases hown : Executor.readOwnSlice (context.slice Executor.spaceName) with
  | error error =>
      have hnot : ¬ context.Points := by
        rw [points_iff, hown]
        exact fun ⟨⟨_, hid⟩, _⟩ => nomatch hid
      exact ⟨fun h => absurd h hnot, fun _ => rfl⟩
  | ok id =>
      cases hlocation : context.location with
      | error error =>
          have hnot : ¬ context.Points := by
            rw [points_iff, hlocation]
            exact fun ⟨_, _, hread⟩ => nomatch hread
          exact ⟨fun h => absurd h hnot, fun _ => rfl⟩
      | ok location =>
          have hpoints : context.Points := points_iff.mpr ⟨⟨id, hown⟩, location, hlocation⟩
          exact ⟨fun _ => by rw [location_eq_told hlocation], fun hnot => absurd hpoints hnot⟩

end Context

namespace Site.Refused

variable {site after : Site} {context : Context}

/-- A refusal while a task is out of the queue is one of the whole site once the task is back. -/
theorem putBack {queue : Queue} (h : Site.Refused { site with queue } context after) :
    site.Refused context { after with queue := site.queue } := by
  refine ⟨fun hpoints => ?_, fun hnot => ?_⟩
  · rw [h.pointed hpoints]
  · rw [h.untouched hnot]

end Site.Refused

namespace Executor

variable {site : Site}

theorem refused_of_error {context : Context} {error : ExecutorError} {after : Site}
    (h : hydrate context site = .error error after) (hplain : site.definitions.announcement = none) :
    site.Refused context after := by
  rw [hydrate_eq_takenOver hplain] at h
  cases htaken : context.takenOver site.central with
  | ok found =>
      rw [htaken] at h
      cases h
  | error fault =>
      rw [htaken] at h
      cases h
      exact context.refused_pointed site

/-- Where taking over fails, the site is what it was, but for being pointed to where the context says the
definitions are if it is only behind that that something is wrong. A turn of a worker that cannot take
over the execution of the oldest task fails for this reason, and leaves no more behind. -/
theorem refused_hydrate (site : Site) (hplain : site.definitions.announcement = none) :
    (∀ context error after, hydrate context site = .error error after →
        site.Refused context after) ∧
      ∀ {ρ ε : Type} (worker : Worker ρ ε) (memory : ρ) (task : QueuedTask) (rest : List QueuedTask)
        (error : ExecutorError) (left : Site), site.queue.pending = task :: rest →
        hydrate task.context { site with queue := { site.queue with pending := rest } } =
          .error error left →
        ∃ after, worker.runNext (site, memory) = .error error (after, memory) ∧
          site.Refused task.context after := by
  refine ⟨fun context error after h => refused_of_error h hplain, ?_⟩
  intro ρ ε worker memory task rest error left hpending hfails
  exact ⟨_, worker.runNext_of_refused hpending hfails, (refused_of_error hfails hplain).putBack⟩

/-- A context that tells where the definitions are, but not which one is followed. -/
def halfContext : Context :=
  { entries := .ofList
      [("x-stately-executor-execution_id", .text "visitor"),
        ("x-stately-executor-version", .ofUInt32 1),
        ("x-stately-definitions-location", .text "elsewhere")] }

/-- A site at which a task with this context waits. -/
def halfway : Site :=
  { Site.fresh false with
    queue := Queue.empty.push { resource := "tow", input := .null, context := halfContext } }

theorem points_halfContext : halfContext.Points := by
  intro entry hmem
  rcases List.mem_cons.mp hmem with rfl | hmem
  · exact Context.isSound_of_given rfl rfl
  · rcases List.mem_pair.mp hmem with rfl | rfl <;> exact Context.isSound_of_given rfl ⟨_, rfl⟩

theorem hydrate_halfContext (site : Site) (hplain : site.definitions.announcement = none)
    (hcarried : site.central = false) :
    hydrate halfContext site =
      .error (.context (.missingKey "definition_id"))
        { site with definitions.location := some "elsewhere" } := by
  -- What is wrong is told by the entries, since computing it would spell identifiers out.
  have hfault : halfContext.FirstFault Entry.all (.missingKey "definition_id") :=
    .later (points_halfContext .version (by decide)) <|
      .later (points_halfContext .executionId (by decide)) <|
        .later (points_halfContext .location (by decide)) <| .here (.missing rfl rfl)
  have htaken : halfContext.takenOver site.central = .error (.missingKey "definition_id") := by
    rw [hcarried]
    exact Context.takenOver_eq_error_iff.mpr hfault
  have htold : halfContext.told = some "elsewhere" := rfl
  have heq := hydrate_eq_takenOver hplain halfContext
  rw [htaken] at heq
  simp only [(halfContext.refused_pointed site).pointed points_halfContext, htold] at heq
  exact heq

/-- A worker that finds the task cannot take it over, and puts it back. -/
theorem runNext_halfway :
    (Worker.reporting (.ok .null)).runNext (halfway, ()) =
      .error (.context (.missingKey "definition_id"))
        ({ halfway with definitions.location := some "elsewhere" }, ()) := by
  have hpending : halfway.queue.pending =
      [{ resource := "tow", input := .null, context := halfContext }] := rfl
  exact Worker.runNext_of_refused _ hpending (hydrate_halfContext _ rfl rfl)

theorem refused_hydrate_halfContext :
    (∃ after, hydrate halfContext halfway =
        .error (.context (.missingKey "definition_id")) after ∧ halfway.Refused halfContext after) ∧
      (∃ after, (Worker.reporting (.ok .null)).runNext (halfway, ()) =
        .error (.context (.missingKey "definition_id")) (after, ()) ∧
        halfway.Refused halfContext after) ∧
      halfContext.Points ∧ halfContext.told = some "elsewhere" := by
  obtain ⟨hrefused, hturn⟩ := refused_hydrate halfway rfl
  have hhydrate := hydrate_halfContext halfway rfl rfl
  refine ⟨⟨_, hhydrate, hrefused halfContext _ _ hhydrate⟩, ?_, points_halfContext, rfl⟩
  have hpending : halfway.queue.pending =
      [{ resource := "tow", input := .null, context := halfContext }] := rfl
  exact hturn (.reporting (.ok .null)) () _ [] _ _ hpending (hydrate_halfContext _ rfl rfl)

/-- Not even a site that nobody has pointed anywhere stays as it is, nor does one whose worker puts the
task back. -/
theorem hydrate_points_halfContext :
    (∃ error after, hydrate halfContext (.fresh false) = .error error after ∧
        (Site.fresh false).definitions.location = none ∧
        after.definitions.location = some "elsewhere") ∧
      ∃ error after, (Worker.reporting (.ok .null)).runNext (halfway, ()) = .error error (after, ()) ∧
        halfway.definitions.location = none ∧ after.definitions.location = some "elsewhere" :=
  ⟨⟨_, _, hydrate_halfContext _ rfl rfl, rfl, rfl⟩, _, _, runNext_halfway, rfl, rfl⟩

end Executor

end Workflow
