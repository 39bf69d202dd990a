import Workflow.Proofs.Session.Phases

/-!
# Linear hand-off

A caller hands executions over linearly if it only ever calls the executor that was given out last for
an execution, and takes an execution over only from a most recent context: the one that the last call
queued, or one that was exported since.
-/

namespace Workflow.Session

/-- The most recent contexts of executions, each with the execution that it carries. -/
abbrev Recent := List (Source × String)

/-- The executions of the executors, in the order in which these were given out. -/
def ids (session : Session) : List String :=
  session.executors.map Executor.executionId

/-- Whether the executor with this number is the last one of its execution. -/
def IsNewest (session : Session) (slot : Nat) : Prop :=
  ∀ id, session.ids[slot]? = some id → id ∉ session.ids.drop (slot + 1)

/-- Whether a call keeps to linear hand-off. What is created must be a valid machine, under an
identifier that was not given out before. -/
def Permits (session : Session) (recent : Recent) : Command → Prop
  | .create machine =>
    machine.violations = [] ∧ Identifier.spell session.site.issued ∉ session.ids
  | .dispatch slot _ | .runTask slot _ _ _ | .exportContext slot | .current slot
  | .definition slot => session.IsNewest slot
  | .hydrate source => ∃ id, (source, id) ∈ recent
  | .reject _ => True

/-- The most recent contexts after an execution was called on, by what the call answered. -/
def superseded (session : Session) (recent : Recent) (slot : Nat) (answer : Answer) : Recent :=
  match session.ids[slot]? with
  | none => recent
  | some id =>
    let others := recent.filter (·.2 ≠ id)
    match answer with
    | some (.ok (.outcome (.suspended _ _))) =>
      others ++ [(.queued session.site.queue.pending.length, id)]
    | _ => others

/-- The most recent contexts after a call, by what it answered. -/
def recentAfter (session : Session) (recent : Recent) (answer : Answer) : Command → Recent
  | .dispatch slot _ | .runTask slot _ _ _ => session.superseded recent slot answer
  | .exportContext slot =>
    match session.ids[slot]? with
    | none => recent
    | some id => recent ++ [(.exported session.exports.length, id)]
  | _ => recent

/-- Whether all calls of a list keep to linear hand-off, each at its moment. -/
def IsLinear (session : Session) (recent : Recent) : List Command → Prop
  | [] => True
  | command :: rest =>
    session.Permits recent command ∧
    (session.step command).2.IsLinear
      (session.recentAfter recent (session.step command).1 command) rest

section Decidability

variable (session : Session)

instance (slot : Nat) : Decidable (session.IsNewest slot) :=
  match hid : session.ids[slot]? with
  | none => .isTrue fun _ hother => nomatch hid.symm.trans hother
  | some id =>
    decidable_of_iff (id ∉ session.ids.drop (slot + 1))
      ⟨fun h _ hother => Option.some.inj (hid.symm.trans hother) ▸ h, fun h => h id hid⟩

instance (recent : Recent) : (command : Command) → Decidable (session.Permits recent command)
  | .create machine =>
    inferInstanceAs (Decidable
      (machine.violations = [] ∧ Identifier.spell session.site.issued ∉ session.ids))
  | .dispatch slot _ | .runTask slot _ _ _ | .exportContext slot | .current slot
  | .definition slot => inferInstanceAs (Decidable (session.IsNewest slot))
  | .hydrate source =>
    decidable_of_iff (∃ entry ∈ recent, entry.1 = source)
      ⟨fun ⟨(_, id), hmem, heq⟩ => ⟨id, heq ▸ hmem⟩, fun ⟨id, hmem⟩ => ⟨(source, id), hmem, rfl⟩⟩
  | .reject _ => .isTrue trivial

instance decidableIsLinear : (session : Session) → (recent : Recent) → (commands : List Command) →
    Decidable (session.IsLinear recent commands)
  | _, _, [] => .isTrue trivial
  | session, recent, command :: rest =>
    @instDecidableAnd _ _ inferInstance
      (decidableIsLinear (session.step command).2
        (session.recentAfter recent (session.step command).1 command) rest)

end Decidability

section Newest

variable {session : Session} {slot : Nat} {executor other : Executor} {id : String}

theorem getElem?_ids (hslot : session.executors[slot]? = some executor) :
    session.ids[slot]? = some executor.executionId := by
  rw [ids, List.getElem?_map, hslot, Option.map_some]

theorem getElem?_ids_of_absent (hslot : session.executors[slot]? = none) :
    session.ids[slot]? = none := by
  rw [ids, List.getElem?_map, hslot, Option.map_none]

theorem mem_drop_of_getElem? {ids : List String} {first second : Nat} (hlt : first < second)
    (hsecond : ids[second]? = some id) : id ∈ ids.drop (first + 1) := by
  refine @List.mem_of_getElem? _ _ (second - (first + 1)) _ ?_
  rw [List.getElem?_drop, show first + 1 + (second - (first + 1)) = second by omega, hsecond]

theorem IsNewest.eq_of_getElem? {first second : Nat} (hfirst : session.IsNewest first)
    (hsecond : session.IsNewest second) (hid : session.ids[first]? = some id)
    (hother : session.ids[second]? = some id) : first = second := by
  rcases Nat.lt_trichotomy first second with hlt | heq | hgt
  · exact absurd (mem_drop_of_getElem? hlt hother) (hfirst id hid)
  · exact heq
  · exact absurd (mem_drop_of_getElem? hgt hid) (hsecond id hother)

theorem ids_put {after : Stage} (hslot : session.executors[slot]? = some executor)
    (hid : after.executor.executionId = executor.executionId) :
    (session.put slot after).ids = session.ids := by
  have hsame : session.ids.set slot executor.executionId = session.ids := by
    obtain ⟨hlt, hget⟩ := List.getElem?_eq_some_iff.mp (getElem?_ids hslot)
    rw [← hget, List.set_getElem_self]
  change (session.executors.set slot after.executor).map Executor.executionId = session.ids
  rw [List.map_set, hid]
  exact hsame

theorem ids_given (executor : Executor) (site : Site) :
    (session.given executor site).ids = session.ids ++ [executor.executionId] :=
  List.map_append

theorem IsNewest.of_given {site : Site} (h : (session.given executor site).IsNewest slot)
    (hid : session.ids[slot]? = some id) : session.IsNewest slot ∧ executor.executionId ≠ id := by
  obtain ⟨hlt, _⟩ := List.getElem?_eq_some_iff.mp hid
  have hnot := h id (by rw [ids_given, List.getElem?_append_left hlt, hid])
  rw [ids_given, List.drop_append_of_le_length hlt, List.mem_append, not_or,
    List.mem_singleton] at hnot
  refine ⟨?_, fun heq => hnot.2 heq.symm⟩
  intro other hother
  obtain rfl : id = other := Option.some.inj (hid.symm.trans hother)
  exact hnot.1

end Newest

end Workflow.Session
