import Mathlib.Data.List.Sort
import Workflow.Definition.Decode
import Workflow.Proofs.Definition.References

/-!
# What a check of references reports

Which checks a machine fails is told by its states alone. A report has one violation for each of them,
in the order of the places in the machine, and there is just one list like that. How the outcomes of
checks are put together is left open but for what it has to come to.
-/

namespace Workflow

namespace Violation

/-- The state that a violation is found in. -/
def state? : Violation → Option String
  | .unknownStart _ => none
  | .unknownNext state _ | .unknownCatchNext state _ _ | .emptyCatch state _ => some state

/-- The catcher of its state that a violation is found in. -/
def catcher? : Violation → Option Nat
  | .unknownStart _ | .unknownNext _ _ => none
  | .unknownCatchNext _ index _ | .emptyCatch _ index => some index

/-- Whether a violation is reported in front of another. -/
inductive Precedes : Violation → Violation → Prop
  /-- The start comes before all states. -/
  | start {start name : String} {later : Violation} (hlater : later.state? = some name) :
      Precedes (.unknownStart start) later
  /-- States come in the order of their names. -/
  | states {earlier later : Violation} {name other : String} (hearlier : earlier.state? = some name)
      (hlater : later.state? = some other) (hlt : name < other) : Precedes earlier later
  /-- The next state of a task comes before its catchers. -/
  | next {name next : String} {later : Violation} {index : Nat} (hlater : later.state? = some name)
      (hcatcher : later.catcher? = some index) : Precedes (.unknownNext name next) later
  /-- Catchers come in their order. -/
  | catchers {earlier later : Violation} {name : String} {i j : Nat}
      (hearlier : earlier.state? = some name) (hlater : later.state? = some name)
      (hi : earlier.catcher? = some i) (hj : later.catcher? = some j) (hlt : i < j) :
      Precedes earlier later
  /-- The codes of a catcher come before its next state. -/
  | catcher {name next : String} {index : Nat} :
      Precedes (.emptyCatch name index) (.unknownCatchNext name index next)

theorem Precedes.asymm {first second : Violation} (h : first.Precedes second) :
    ¬ second.Precedes first := by
  intro hback
  have hlt : ∀ {name other : String}, name < other → ¬ other < name :=
    fun hname hother => String.lt_irrefl _ (String.lt_trans hname hother)
  cases h <;> cases hback <;> grind [state?, catcher?]

instance : Std.Irrefl Precedes where
  irrefl _ h := h.asymm h

instance : Std.Antisymm Precedes where
  antisymm _ _ h hback := absurd hback h.asymm

end Violation

/-- A check, and the violation that it is to find. -/
structure Check where
  holds : Bool
  violation : Violation

/-- The outcome of a check, or of several together: nothing, or what is wrong. -/
abbrev Verdict := Except (List Violation) Unit

def Check.verdict (check : Check) : Verdict :=
  if check.holds then .ok () else .error [check.violation]

/-- What is wrong according to a verdict. -/
def failures : Verdict → List Violation
  | .ok () => []
  | .error violations => violations

/-- Whether verdicts are put together as they have to be: all of them are asked for, and those that
fail are told one after the other. -/
structure Accumulates (all : List Verdict → Except (List Violation) (List Unit)) : Prop where
  succeeds_iff : ∀ parts, (∃ units, all parts = .ok units) ↔ ∀ part ∈ parts, part = .ok ()
  concatenates : ∀ parts violations, all parts = .error violations →
    violations = parts.flatMap failures

namespace Machine

def catcherChecks (machine : Machine) (state : String) (catcher : Catcher) (index : Nat) : List Check :=
  [⟨!catcher.codes.isEmpty, .emptyCatch state index⟩,
    ⟨machine.knows catcher.next, .unknownCatchNext state index catcher.next⟩]

def stateChecks (machine : Machine) (name : String) : State → List Check
  | .task task =>
    (task.next.toList.map fun next => ⟨machine.knows next, .unknownNext name next⟩) ++
      task.catchers.zipIdx.flatMap fun (catcher, index) => machine.catcherChecks name catcher index
  | .succeed _ | .fail _ => []

/-- All checks, in the order in which they are made. -/
def checks (machine : Machine) : List Check :=
  ⟨machine.knows machine.startAt, .unknownStart machine.startAt⟩ ::
    machine.states.entries.flatMap fun (name, state) => machine.stateChecks name state

/-- The verdict on a machine, where verdicts are put together in some way. -/
def validate (all : List Verdict → Except (List Violation) (List Unit)) (machine : Machine) :
    Verdict :=
  (all (machine.checks.map (·.verdict))).map fun _ => ()

/-- The checks that a machine fails, each with its violation. -/
inductive Fails (machine : Machine) : Violation → Prop
  | start (h : machine.state? machine.startAt = none) :
      Fails machine (.unknownStart machine.startAt)
  | next {name next : String} {task : TaskState} (htask : machine.state? name = some (.task task))
      (hnext : task.next = some next) (h : machine.state? next = none) :
      Fails machine (.unknownNext name next)
  | codes {name : String} {task : TaskState} {index : Nat} {catcher : Catcher}
      (htask : machine.state? name = some (.task task))
      (hcatcher : task.catchers[index]? = some catcher) (h : catcher.codes = []) :
      Fails machine (.emptyCatch name index)
  | catchNext {name : String} {task : TaskState} {index : Nat} {catcher : Catcher}
      (htask : machine.state? name = some (.task task))
      (hcatcher : task.catchers[index]? = some catcher) (h : machine.state? catcher.next = none) :
      Fails machine (.unknownCatchNext name index catcher.next)

/-- Whether a list tells of each failed check once and of nothing else, in the order of the places. -/
structure Reports (machine : Machine) (violations : List Violation) : Prop where
  exact : ∀ violation, violation ∈ violations ↔ machine.Fails violation
  ordered : violations.Pairwise Violation.Precedes

/-- A machine of the given states with no more than it needs. -/
def plain (states : Dict State) (startAt : String) : Machine :=
  { states
    startAt
    comment := none
    version := defaultVersion
    timeoutSeconds := none }

/-- The attempts in which a machine is what was put together, or read. -/
inductive MadeBy : Machine → Except ParseError Machine → Prop
  | ofStates (states : Dict State) (startAt : String) :
      MadeBy (plain states startAt) (Machine.ofStates states startAt)
  | ofJson {machine : Machine} {json : Json} (h : decode.ofJson json = .ok machine) :
      MadeBy machine (Machine.ofJson json)
  | ofText {machine : Machine} {text : String} (h : decode.ofText text = .ok machine) :
      MadeBy machine (Machine.ofText text)

variable {machine : Machine} {name : String} {state : State} {check : Check}

theorem knows_eq_false_iff : machine.knows name = false ↔ machine.state? name = none :=
  Dict.contains_eq_false_iff

section Order

theorem state?_of_mem_catcherChecks {catcher : Catcher} {index : Nat}
    (h : check ∈ machine.catcherChecks name catcher index) :
    check.violation.state? = some name ∧ check.violation.catcher? = some index := by
  unfold catcherChecks at h
  rcases List.mem_pair.mp h with rfl | rfl <;> exact ⟨rfl, rfl⟩

theorem state?_of_mem_stateChecks (h : check ∈ machine.stateChecks name state) :
    check.violation.state? = some name := by
  cases state with
  | task task =>
      rcases List.mem_append.mp h with hnext | hcatcher
      · obtain ⟨next, -, rfl⟩ := List.mem_map.mp hnext
        rfl
      · obtain ⟨_, -, hmem⟩ := List.mem_flatMap.mp hcatcher
        exact (state?_of_mem_catcherChecks hmem).1
  | succeed comment => cases h
  | fail failure => cases h

theorem pairwise_catcherChecks (machine : Machine) (name : String) (catcher : Catcher) (index : Nat) :
    (machine.catcherChecks name catcher index).Pairwise fun earlier later =>
      earlier.violation.Precedes later.violation :=
  List.pairwise_pair.mpr .catcher

theorem pairwise_stateChecks (machine : Machine) (name : String) (state : State) :
    (machine.stateChecks name state).Pairwise fun earlier later =>
      earlier.violation.Precedes later.violation := by
  cases state with
  | task task =>
      have hindices : task.catchers.zipIdx.Pairwise fun earlier later => earlier.2 < later.2 := by
        rw [← List.pairwise_map (f := Prod.snd), List.zipIdx_map_snd]
        exact List.pairwise_lt_range'
      refine List.pairwise_append.mpr ⟨?next, ?catchers, ?across⟩
      case next => cases task.next <;> simp
      case catchers =>
        refine List.pairwise_flatMap.mpr ⟨fun entry _ => pairwise_catcherChecks _ _ _ _, ?_⟩
        refine hindices.imp ?_
        intro earlier later hlt check hcheck other hother
        obtain ⟨hstate, hindex⟩ := state?_of_mem_catcherChecks hcheck
        obtain ⟨hlater, hj⟩ := state?_of_mem_catcherChecks hother
        exact .catchers hstate hlater hindex hj hlt
      case across =>
        intro check hcheck other hother
        obtain ⟨next, -, rfl⟩ := List.mem_map.mp hcheck
        obtain ⟨_, -, hmem⟩ := List.mem_flatMap.mp hother
        obtain ⟨hstate, hindex⟩ := state?_of_mem_catcherChecks hmem
        exact .next hstate hindex
  | succeed comment => exact .nil
  | fail failure => exact .nil

/-- The checks are made in the order of their places. -/
theorem pairwise_checks (machine : Machine) :
    machine.checks.Pairwise fun earlier later => earlier.violation.Precedes later.violation := by
  refine List.pairwise_cons.mpr ⟨?_, ?_⟩
  · intro check hcheck
    obtain ⟨_, -, hmem⟩ := List.mem_flatMap.mp hcheck
    exact .start (state?_of_mem_stateChecks hmem)
  · refine List.pairwise_flatMap.mpr ⟨fun entry _ => pairwise_stateChecks _ _ _, ?_⟩
    refine machine.states.ascending.imp ?_
    intro earlier later hlt check hcheck other hother
    exact .states (state?_of_mem_stateChecks hcheck) (state?_of_mem_stateChecks hother) hlt

end Order

section Failed

theorem fails_of_mem_catcherChecks {task : TaskState} {catcher : Catcher} {index : Nat}
    (htask : machine.state? name = some (.task task))
    (hcatcher : task.catchers[index]? = some catcher)
    (h : check ∈ machine.catcherChecks name catcher index) (hfails : check.holds = false) :
    machine.Fails check.violation := by
  unfold catcherChecks at h
  rcases List.mem_pair.mp h with rfl | rfl
  · exact .codes htask hcatcher (by simpa using hfails)
  · exact .catchNext htask hcatcher (knows_eq_false_iff.mp hfails)

theorem fails_of_mem_stateChecks (hstate : machine.state? name = some state)
    (h : check ∈ machine.stateChecks name state) (hfails : check.holds = false) :
    machine.Fails check.violation := by
  cases state with
  | task task =>
      rcases List.mem_append.mp h with hnext | hcatcher
      · obtain ⟨next, hmem, rfl⟩ := List.mem_map.mp hnext
        exact .next hstate (Option.mem_toList.mp hmem) (knows_eq_false_iff.mp hfails)
      · obtain ⟨⟨catcher, index⟩, hentry, hmem⟩ := List.mem_flatMap.mp hcatcher
        exact fails_of_mem_catcherChecks hstate (List.mk_mem_zipIdx_iff_getElem?.mp hentry) hmem hfails
  | succeed comment => cases h
  | fail failure => cases h

theorem fails_of_mem_checks (h : check ∈ machine.checks) (hfails : check.holds = false) :
    machine.Fails check.violation := by
  rcases List.mem_cons.mp h with rfl | hstates
  · exact .start (knows_eq_false_iff.mp hfails)
  · obtain ⟨⟨name, state⟩, hentry, hmem⟩ := List.mem_flatMap.mp hstates
    exact fails_of_mem_stateChecks (Dict.get?_eq_some_iff.mpr hentry) hmem hfails

theorem mem_checks_of_state (hstate : machine.state? name = some state)
    (h : check ∈ machine.stateChecks name state) : check ∈ machine.checks :=
  List.mem_cons_of_mem _ (List.mem_flatMap.mpr ⟨(name, state), Dict.get?_eq_some_iff.mp hstate, h⟩)

theorem mem_checks_of_catcher {task : TaskState} {catcher : Catcher} {index : Nat}
    (htask : machine.state? name = some (.task task))
    (hcatcher : task.catchers[index]? = some catcher)
    (h : check ∈ machine.catcherChecks name catcher index) : check ∈ machine.checks :=
  mem_checks_of_state htask (List.mem_append_right _
    (List.mem_flatMap.mpr ⟨(catcher, index), List.mk_mem_zipIdx_iff_getElem?.mpr hcatcher, h⟩))

theorem exists_check_of_fails {violation : Violation} (h : machine.Fails violation) :
    ∃ check ∈ machine.checks, check.holds = false ∧ check.violation = violation := by
  cases h with
  | start h => exact ⟨_, List.mem_cons_self, knows_eq_false_iff.mpr h, rfl⟩
  | @next name next task htask hnext h =>
      refine ⟨⟨machine.knows next, .unknownNext name next⟩, mem_checks_of_state htask ?_,
        knows_eq_false_iff.mpr h, rfl⟩
      exact List.mem_append_left _ (List.mem_map.mpr ⟨next, Option.mem_toList.mpr hnext, rfl⟩)
  | codes htask hcatcher h =>
      exact ⟨_, mem_checks_of_catcher htask hcatcher List.mem_cons_self, by simp [h], rfl⟩
  | catchNext htask hcatcher h =>
      exact ⟨_, mem_checks_of_catcher htask hcatcher (List.mem_cons_of_mem _ List.mem_cons_self),
        knows_eq_false_iff.mpr h, rfl⟩

theorem violations_eq_flatMap (machine : Machine) :
    machine.violations =
      machine.checks.flatMap fun check => violationUnless check.holds check.violation := by
  have hstate : ∀ name state, machine.stateViolations name state =
      (machine.stateChecks name state).flatMap fun check =>
        violationUnless check.holds check.violation := by
    intro name state
    cases state with
    | task task =>
        simp only [stateViolations, stateChecks, catcherViolations, catcherChecks,
          List.flatMap_append, List.flatMap_map, List.flatMap_assoc, List.flatMap_cons,
          List.flatMap_nil, List.append_nil]
    | succeed comment => rfl
    | fail failure => rfl
  simp only [violations, checks, List.flatMap_cons, List.flatMap_assoc, hstate]

theorem mem_violationUnless {holds : Bool} {violation other : Violation} :
    other ∈ violationUnless holds violation ↔ holds = false ∧ violation = other := by
  cases holds <;> simp [violationUnless, eq_comm]

theorem mem_violations_iff {violation : Violation} :
    violation ∈ machine.violations ↔ machine.Fails violation := by
  rw [violations_eq_flatMap, List.mem_flatMap]
  constructor
  · rintro ⟨check, hcheck, hmem⟩
    obtain ⟨hfails, rfl⟩ := mem_violationUnless.mp hmem
    exact fails_of_mem_checks hcheck hfails
  · intro h
    obtain ⟨check, hcheck, hfails, heq⟩ := exists_check_of_fails h
    exact ⟨check, hcheck, mem_violationUnless.mpr ⟨hfails, heq⟩⟩

/-- The violations of a machine are those of its failed checks, so they stand in the same order. -/
theorem pairwise_violations (machine : Machine) : machine.violations.Pairwise Violation.Precedes := by
  rw [violations_eq_flatMap]
  refine List.pairwise_flatMap.mpr ⟨fun check _ => ?_, machine.pairwise_checks.imp ?_⟩
  · cases check.holds <;> simp [violationUnless]
  · intro earlier later hprecedes violation hmem other hother
    obtain ⟨-, rfl⟩ := mem_violationUnless.mp hmem
    obtain ⟨-, rfl⟩ := mem_violationUnless.mp hother
    exact hprecedes

theorem reports_iff {violations : List Violation} :
    machine.Reports violations ↔ violations = machine.violations := by
  constructor
  · intro h
    refine h.ordered.eq_of_mem_iff machine.pairwise_violations fun violation => ?_
    rw [h.exact, mem_violations_iff]
  · rintro rfl
    exact ⟨fun _ => mem_violations_iff, machine.pairwise_violations⟩

end Failed

section Verdicts

variable {all : List Verdict → Except (List Violation) (List Unit)}

theorem failures_verdict (check : Check) :
    failures check.verdict = violationUnless check.holds check.violation := by
  obtain ⟨holds, violation⟩ := check
  cases holds <;> rfl

theorem verdict_eq_ok_iff {check : Check} : check.verdict = .ok () ↔ failures check.verdict = [] := by
  obtain ⟨holds, violation⟩ := check
  cases holds <;> simp [Check.verdict, failures]

theorem flatMap_failures (machine : Machine) :
    (machine.checks.map (·.verdict)).flatMap failures = machine.violations := by
  rw [violations_eq_flatMap, List.flatMap_map]
  simp only [failures_verdict]

theorem exists_units_iff (hall : Accumulates all) :
    (∃ units, all (machine.checks.map (·.verdict)) = .ok units) ↔ machine.IsClosed := by
  rw [hall.succeeds_iff, ← violations_eq_nil_iff, ← flatMap_failures, List.flatMap_eq_nil_iff]
  simp only [List.forall_mem_map, verdict_eq_ok_iff]

theorem validate_of_isClosed (hall : Accumulates all) (h : machine.IsClosed) :
    machine.validate all = .ok () := by
  obtain ⟨units, hunits⟩ := (exists_units_iff hall).mpr h
  rw [validate, hunits]
  rfl

theorem validate_of_not_isClosed (hall : Accumulates all) (h : ¬ machine.IsClosed) :
    machine.validate all = .error machine.violations := by
  cases hparts : all (machine.checks.map (·.verdict)) with
  | ok units => exact absurd ((exists_units_iff hall).mp ⟨units, hparts⟩) h
  | error violations =>
      rw [validate, hparts, ← flatMap_failures, ← hall.concatenates _ _ hparts]
      rfl

theorem MadeBy.eq_checked {attempt : Except ParseError Machine} (h : machine.MadeBy attempt) :
    attempt = machine.checked := by
  cases h with
  | ofStates states startAt => rfl
  | ofJson h => rw [Machine.ofJson, h, ofDecoded]
  | ofText h => rw [Machine.ofText, h, ofDecoded]

theorem checked_eq_validate (hall : Accumulates all) (machine : Machine) :
    machine.checked = ((machine.validate all).map fun _ => machine).mapError .invalid := by
  by_cases h : machine.IsClosed
  · rw [checked_of_isClosed h, validate_of_isClosed hall h]
    rfl
  · rw [checked_of_not_isClosed h, validate_of_not_isClosed hall h]
    rfl

/-- A machine is found valid if every name in it leads to a state and every catcher lists a code.
Otherwise the verdict tells of each check that fails, once and in order, and of nothing else; and whoever
puts the machine together or reads it is turned away with just that list. -/
theorem validate_reports_failed (hall : Accumulates all) (machine : Machine) :
    (machine.validate all = .ok () ↔ machine.IsClosed) ∧
      (∀ violations, machine.validate all = .error violations ↔
        ¬ machine.IsClosed ∧ machine.Reports violations) ∧
      ∀ attempt, machine.MadeBy attempt →
        attempt = ((machine.validate all).map fun _ => machine).mapError .invalid := by
  refine ⟨?valid, ?invalid, fun attempt hmade =>
    hmade.eq_checked.trans (checked_eq_validate hall machine)⟩
  case valid =>
    refine ⟨fun hok => ?_, validate_of_isClosed hall⟩
    by_contra h
    rw [validate_of_not_isClosed hall h] at hok
    cases hok
  case invalid =>
    intro violations
    by_cases h : machine.IsClosed
    · rw [validate_of_isClosed hall h]
      exact ⟨fun heq => (nomatch heq), fun hnot => absurd h hnot.1⟩
    · rw [validate_of_not_isClosed hall h, Except.error.injEq, reports_iff]
      exact ⟨fun heq => ⟨h, heq.symm⟩, fun hreports => hreports.2.symm⟩

end Verdicts

/-- One verdict after the other, and all that fails is kept. -/
def gather : List Verdict → Except (List Violation) (List Unit)
  | [] => .ok []
  | .ok () :: rest => (gather rest).map (() :: ·)
  | .error violations :: rest =>
    match gather rest with
    | .ok _ => .error violations
    | .error later => .error (violations ++ later)

theorem gather_cases (parts : List Verdict) :
    ((∃ units, gather parts = .ok units) ∧ ∀ part ∈ parts, part = .ok ()) ∨
      gather parts = .error (parts.flatMap failures) ∧ ∃ part ∈ parts, part ≠ .ok () := by
  induction parts with
  | nil => exact .inl ⟨⟨[], rfl⟩, fun _ hmem => nomatch hmem⟩
  | cons part rest ih =>
      cases part with
      | ok result =>
          rcases ih with ⟨⟨units, hunits⟩, hall⟩ | ⟨herror, other, hmem, hne⟩
          · refine .inl ⟨⟨() :: units, by rw [gather, hunits]; rfl⟩, ?_⟩
            exact List.forall_mem_cons.mpr ⟨rfl, hall⟩
          · exact .inr ⟨by rw [gather, herror]; rfl, other, List.mem_cons_of_mem _ hmem, hne⟩
      | error violations =>
          refine .inr ⟨?_, _, List.mem_cons_self, fun heq => nomatch heq⟩
          rcases ih with ⟨⟨units, hunits⟩, hall⟩ | ⟨herror, -⟩
          · have hnone : rest.flatMap failures = [] :=
              List.flatMap_eq_nil_iff.mpr fun other hmem => by rw [hall other hmem]; rfl
            rw [gather, hunits, List.flatMap_cons, hnone, List.append_nil]
            rfl
          · rw [gather, herror]
            rfl

theorem accumulates_gather : Accumulates gather := by
  refine ⟨fun parts => ?_, fun parts violations hviolations => ?_⟩
  · rcases gather_cases parts with ⟨hunits, hall⟩ | ⟨herror, other, hmem, hne⟩
    · exact ⟨fun _ => hall, fun _ => hunits⟩
    · refine ⟨fun ⟨units, hunits⟩ => ?_, fun hall => absurd (hall other hmem) hne⟩
      cases hunits.symm.trans herror
  · rcases gather_cases parts with ⟨⟨units, hunits⟩, -⟩ | ⟨herror, -⟩
    · cases hunits.symm.trans hviolations
    · exact Except.error.inj (hviolations.symm.trans herror)

/-- A task of which nothing leads anywhere but its first catcher, which lists no code. -/
def adriftStates : Dict State :=
  .ofList
    [("Sail", .task
        { resource := "wind"
          next := some "Harbour"
          catchList := some [{ codes := [], next := "Sail" }, .ofAnyError "Shore"]
          comment := none })]

def adriftViolations : List Violation :=
  [.unknownStart "Quay", .unknownNext "Sail" "Harbour", .emptyCatch "Sail" 0,
    .unknownCatchNext "Sail" 1 "Shore"]

/-- All that is wrong is reported, in order. -/
theorem validate_reports_failed_adrift :
    Accumulates gather ∧
      (plain adriftStates "Quay").validate gather = .error adriftViolations ∧
      ¬ (plain adriftStates "Quay").IsClosed ∧
      (plain adriftStates "Quay").Reports adriftViolations ∧
      (plain adriftStates "Quay").MadeBy (ofStates adriftStates "Quay") ∧
      ofStates adriftStates "Quay" = .error (.invalid adriftViolations) := by
  have hverdict : (plain adriftStates "Quay").validate gather = .error adriftViolations := rfl
  have hmade : (plain adriftStates "Quay").MadeBy (ofStates adriftStates "Quay") := .ofStates _ _
  obtain ⟨-, hreports, hturned⟩ := validate_reports_failed accumulates_gather (plain adriftStates "Quay")
  obtain ⟨hopen, hexact⟩ := (hreports adriftViolations).mp hverdict
  refine ⟨accumulates_gather, hverdict, hopen, hexact, hmade, ?_⟩
  rw [hturned _ hmade, hverdict]
  rfl

end Machine

end Workflow
