import Workflow.Proofs.Executor.Footprint

/-!
# Two stages of one view

What the same changes add at two stages of one view is the same, whatever else is there: the same
tasks, and the same lines but for the tag of who wrote them.
-/

namespace Workflow

/-- Two lines that tell the same, each with the tag of its writer. -/
structure LogLine.SameText (first second : LogLine) : Prop where
  executionId : first.executionId = second.executionId
  sequence : first.sequence = second.sequence
  message : ∃ resource state message,
    first.message = logMessage first.executorId resource state message ∧
    second.message = logMessage second.executorId resource state message

theorem LogLine.SameText.eq {first second : LogLine} (h : first.SameText second)
    (hexecutorId : first.executorId = second.executorId) : first = second := by
  obtain ⟨executionId, executorId, sequence, text⟩ := first
  obtain ⟨otherId, otherExecutorId, otherSequence, otherText⟩ := second
  obtain ⟨rfl, rfl, resource, state, message, hfirst, hsecond⟩ := h
  obtain rfl : executorId = otherExecutorId := hexecutorId
  obtain rfl : text = otherText := hfirst.trans hsecond.symm
  rfl

namespace Stage

/-- What was added at the first stage is alike to what was added at the second one. -/
structure Alike (first second firstAfter secondAfter : Stage) : Prop where
  queue : ∃ tasks, firstAfter.site.queue.pending = first.site.queue.pending ++ tasks ∧
    secondAfter.site.queue.pending = second.site.queue.pending ++ tasks
  log : ∃ lines others, firstAfter.site.log = first.site.log ++ lines ∧
    secondAfter.site.log = second.site.log ++ others ∧ List.Forall₂ LogLine.SameText lines others

namespace Alike

variable {first second firstMiddle secondMiddle firstAfter secondAfter : Stage}

theorem refl (first second : Stage) : Alike first second first second :=
  { queue := ⟨[], (List.append_nil _).symm, (List.append_nil _).symm⟩
    log := ⟨[], [], (List.append_nil _).symm, (List.append_nil _).symm, .nil⟩ }

theorem trans (hfirst : Alike first second firstMiddle secondMiddle)
    (hsecond : Alike firstMiddle secondMiddle firstAfter secondAfter) :
    Alike first second firstAfter secondAfter := by
  obtain ⟨tasks, htasks, htasks'⟩ := hfirst.queue
  obtain ⟨more, hmore, hmore'⟩ := hsecond.queue
  obtain ⟨lines, others, hlines, hothers, hsame⟩ := hfirst.log
  obtain ⟨later, laterOthers, hlater, hlater', hlaterSame⟩ := hsecond.log
  refine
    { queue := ⟨tasks ++ more, ?_, ?_⟩
      log := ⟨lines ++ later, others ++ laterOthers, ?_, ?_, List.rel_append hsame hlaterSame⟩ }
  · rw [hmore, htasks, List.append_assoc]
  · rw [hmore', htasks', List.append_assoc]
  · rw [hlater, hlines, List.append_assoc]
  · rw [hlater', hothers, List.append_assoc]

end Alike

variable {first second : Stage}

theorem alike_recorded (first second : Stage) (change : Change) :
    Alike first second (first.recorded change) (second.recorded change) := by
  refine { queue := ⟨[], ?_, ?_⟩, log := ⟨[], [], ?_, ?_, .nil⟩ }
  · rw [site_recorded, List.append_nil]
  · rw [site_recorded, List.append_nil]
  · rw [site_recorded, List.append_nil]
  · rw [site_recorded, List.append_nil]

theorem alike_change (hfirst : first.site.definitions.announcement = none)
    (hsecond : second.site.definitions.announcement = none) (h : first.view = second.view)
    (change : Change) : Alike first second (first.change change) (second.change change) := by
  cases change with
  | entered state => exact alike_recorded first second _
  | ended result => exact alike_recorded first second _
  | fetched => exact { Alike.refl first second with }
  | written resource state message =>
      have hid := congrArg (·.executor.executionId) h
      have hsequence := congrArg (·.executor.sequence + 1) h
      refine { Alike.refl first second with log := ⟨[_], [_], rfl, rfl, .cons ?_ .nil⟩ }
      exact ⟨hid, hsequence, resource, state, message, rfl, rfl⟩
  | handedOff resource input =>
      have hcontext : first.executor.exported first.site.definitions =
          second.executor.exported second.site.definitions := by
        rw [← context_view first hfirst, ← context_view second hsecond, h]
      refine { Alike.refl first second with queue := ⟨[_], rfl, ?_⟩ }
      rw [hcontext]
      rfl

theorem alike_changed (hfirst : first.site.definitions.announcement = none)
    (hsecond : second.site.definitions.announcement = none) (h : first.view = second.view)
    (changes : List Change) :
    Alike first second (first.changed changes) (second.changed changes) := by
  induction changes generalizing first second with
  | nil => exact .refl first second
  | cons change rest ih =>
      apply (alike_change hfirst hsecond h change).trans
      apply ih
      · rw [definitions_change, hfirst]
      · rw [definitions_change, hsecond]
      · rw [view_change, view_change, h]

/-- Where one executor writes at both stages, it writes the same lines. -/
theorem Alike.lines_eq {firstAfter secondAfter : Stage} (h : Alike first second firstAfter secondAfter)
    (hfirst : first.Confined firstAfter) (hsecond : second.Confined secondAfter)
    (hexecutorId : first.executor.executorId = second.executor.executorId) :
    ∃ lines, firstAfter.site.log = first.site.log ++ lines ∧
      secondAfter.site.log = second.site.log ++ lines := by
  obtain ⟨lines, others, hlines, hothers, hsame⟩ := h.log
  obtain ⟨own, hown, howned⟩ := hfirst.log
  obtain ⟨theirs, htheirs, htheirsOwned⟩ := hsecond.log
  obtain rfl : lines = own := List.append_cancel_left (hlines.symm.trans hown)
  obtain rfl : others = theirs := List.append_cancel_left (hothers.symm.trans htheirs)
  have heq : lines = others := by
    clear hlines hothers hown htheirs
    induction hsame with
    | nil => rfl
    | cons hline _ ih =>
        obtain ⟨hhead, htail⟩ := List.forall_mem_cons.mp howned
        obtain ⟨hotherHead, hotherTail⟩ := List.forall_mem_cons.mp htheirsOwned
        have hwriter := hhead.2.trans (hexecutorId.trans hotherHead.2.symm)
        rw [hline.eq hwriter, ih htail hotherTail]
  exact ⟨lines, hlines, heq ▸ hothers⟩

theorem executor_eq_of_view (h : first.view = second.view)
    (hexecutorId : first.executor.executorId = second.executor.executorId) :
    first.executor = second.executor := by
  apply Executor.ext_fields
  · exact congrArg (·.executor.executionId) h
  · exact congrArg (·.executor.execution.held) h
  · exact hexecutorId
  · exact congrArg (·.executor.sequence) h

/-- Tables that agree on an execution go on agreeing on it. -/
theorem table_changed_eq (h : first.view = second.view) {id : String}
    (htable : first.site.table.get? id = second.site.table.get? id) (changes : List Change) :
    (first.changed changes).site.table.get? id = (second.changed changes).site.table.get? id := by
  induction changes generalizing first second with
  | nil => exact htable
  | cons change rest ih =>
      apply ih
      · rw [view_change, view_change, h]
      · have hid : first.executor.executionId = second.executor.executionId :=
          congrArg (·.executor.executionId) h
        have hheld : first.executor.execution.held = second.executor.execution.held :=
          congrArg (·.executor.execution.held) h
        rw [table_change, table_change, htable, hid, hheld]

end Stage

end Workflow
