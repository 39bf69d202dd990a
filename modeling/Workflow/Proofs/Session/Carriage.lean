import Workflow.Proofs.Session.Handover

/-!
# What a context carries alone

An execution that is carried in its context takes nothing along from the site that it was at, and finds
nothing at the next one but its machine. Two sites that know the same machine by the identifier in the
context are as good as one.
-/

namespace Workflow

/-- Whether two sites that carry executions in contexts agree on the machine of a context. Whatever else
is there may differ. -/
structure Site.AgreesOn (first second : Site) (context : Context) : Prop where
  carried : first.central = false ∧ second.central = false
  unannounced : first.definitions.announcement = none ∧ second.definitions.announcement = none
  resolved : ∀ id,
    (context.slice Execution.spaceName).require .text Execution.definitionKey = .ok id →
    (first.definitions.hydrate id first.library).1 = (second.definitions.hydrate id second.library).1

/-- Whether nobody who takes over from a context can tell two sites apart: taking over fails at both for
the same reason, or succeeds at both, and then the two executors answer all requests alike, hand off the
same tasks and write the same lines but for their own tags. -/
def Site.ServesAlike (first second : Site) (context : Context) : Prop :=
  (∃ error firstAfter secondAfter,
    Executor.hydrate context first = .error error firstAfter ∧
    Executor.hydrate context second = .error error secondAfter) ∨
  ∃ executor other firstAfter secondAfter,
    Executor.hydrate context first = .ok executor firstAfter ∧
    Executor.hydrate context second = .ok other secondAfter ∧
    ∀ requests,
      (Stage.serveAll { executor, site := firstAfter } requests).1 =
        (Stage.serveAll { executor := other, site := secondAfter } requests).1 ∧
      Stage.Alike { executor, site := first } { executor := other, site := second }
        (Stage.serveAll { executor, site := firstAfter } requests).2
        (Stage.serveAll { executor := other, site := secondAfter } requests).2

namespace Executor

variable {first second : Site} {context : Context}

/-- The executors that take over at two sites see the same there. -/
theorem view_of_agreesOn (h : first.AgreesOn second context) {id : String} {executor : Executor}
    (hexecutor : context.executor false id "" = .ok executor) (location : Option String)
    (executorId otherId : String) (issued otherIssued : Nat) :
    (Stage.facing
      { executor := { executor with executorId }
        site := { first with definitions.location := location, issued } } none).view =
    (Stage.facing
      { executor := { executor with executorId := otherId }
        site := { second with definitions.location := location, issued := otherIssued } }
      none).view := by
  obtain ⟨record, hheld, hrecord⟩ := held_of_executor hexecutor
  obtain ⟨definitionId, hrequire, hid⟩ := ExecutionRecord.definitionId_of_ofSlice hrecord
  refine Stage.view_congr rfl rfl ?_ ?_ rfl rfl
  · rw [Stage.record_of_held _ hheld, Stage.record_of_held _ hheld]
  · intro other digest hother hdigest
    obtain rfl := Except.ok.inj ((Stage.record_of_held _ hheld).symm.trans hother)
    obtain rfl : definitionId = digest := Option.some.inj (hid.symm.trans hdigest)
    exact h.resolved definitionId hrequire

end Executor

namespace Site

variable {first second : Site} {context : Context}

/-- An execution that is carried in its context depends on a site by the machine that the identifier in
the context stands for there, and by nothing else. -/
theorem servesAlike_of_agreesOn (h : first.AgreesOn second context) :
    first.ServesAlike second context := by
  rcases Executor.hydrateAs_cases false context "" with
    ⟨error, hrefused⟩ | ⟨id, executor, location, hexecutor, hadmitted⟩
  · obtain ⟨location, hfirst⟩ := hrefused first h.unannounced.1 h.carried.1
    obtain ⟨other, hsecond⟩ := hrefused second h.unannounced.2 h.carried.2
    exact .inl ⟨error, _, _, Action.bind_of_error hfirst _, Action.bind_of_error hsecond _⟩
  · have hfirst := hadmitted first h.unannounced.1 h.carried.1
    have hsecond := hadmitted second h.unannounced.2 h.carried.2
    refine .inr ⟨_, _, _, _, Action.bind_of_ok hfirst _, Action.bind_of_ok hsecond _, ?_⟩
    intro requests
    have hview := Executor.view_of_agreesOn h hexecutor location (Identifier.spell first.issued)
      (Identifier.spell second.issued) (first.issued + 1) (second.issued + 1)
    obtain ⟨hanswers, halike⟩ :=
      Stage.serveAll_congr h.unannounced.1 h.unannounced.2 hview requests
    exact ⟨hanswers, halike.queue, halike.log⟩

/-- A site that knows the visitor's machine, and nothing else. -/
def hostel : Site :=
  { fresh false with library := .insert .empty homeShelf "elsewhere" .errand }

/-- A site that knows it from a shelf that is read first, and at which a lot has happened. -/
def harbour : Site :=
  { fresh false with
    library := .insert .empty "pier" "elsewhere" .errand
    definitions :=
      { DefinitionStore.plain "quay" with
        front := some "pier"
        location := some "south" }
    log := [{ executionId := "visitor", executorId := "stranger", sequence := 9, message := "left" }]
    queue := Queue.empty.push { resource := "tow", input := .null, context := .empty }
    rejection := some "storm"
    issued := 12 }

theorem servesAlike_visitor :
    hostel.AgreesOn harbour Session.visitorContext ∧
      hostel.ServesAlike harbour Session.visitorContext := by
  have hid : (Session.visitorContext.slice Execution.spaceName).require .text
      Execution.definitionKey = .ok "elsewhere" := by
    decide +kernel
  have hagrees : hostel.AgreesOn harbour Session.visitorContext := by
    refine ⟨⟨rfl, rfl⟩, ⟨rfl, rfl⟩, ?_⟩
    intro id hrequire
    obtain rfl : "elsewhere" = id := Except.ok.inj (hid.symm.trans hrequire)
    have hfirst : (hostel.definitions.hydrate "elsewhere" hostel.library).1 = .ok .errand := by
      decide +kernel
    have hsecond : (harbour.definitions.hydrate "elsewhere" harbour.library).1 = .ok .errand := by
      decide +kernel
    rw [hfirst, hsecond]
  exact ⟨hagrees, servesAlike_of_agreesOn hagrees⟩

end Site

end Workflow
