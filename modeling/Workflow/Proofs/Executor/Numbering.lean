import Workflow.Proofs.Executor.Footprint

/-!
# How a call numbers its lines

A call numbers the lines that it writes on from the position of its executor, and leaves the executor
at the number of the last one.
-/

namespace Workflow

/-- The numbers of so many lines after the first `n`. -/
def sequencesAfter (n count : Nat) : List UInt64 :=
  (List.range' (n + 1) count).map UInt64.ofNat

theorem sequencesAfter_append (n first second : Nat) :
    sequencesAfter n first ++ sequencesAfter (n + first) second = sequencesAfter n (first + second) := by
  unfold sequencesAfter
  rw [← List.map_append, show n + first + 1 = n + 1 + first by omega, List.range'_append_1]

/-- Numbers that do not run over are the numbers of the positions. -/
theorem sequencesAfter_toNat {count : Nat} (h : count < UInt64.size) :
    (sequencesAfter 0 count).map UInt64.toNat = List.range' 1 count := by
  unfold sequencesAfter
  rw [List.map_map, Nat.zero_add]
  conv_rhs => rw [← List.map_id (List.range' 1 count)]
  apply List.map_congr_left
  intro n hn
  rw [List.mem_range'_1] at hn
  exact UInt64.toNat_ofNat_of_lt' (show n < UInt64.size by omega)

/-- Whether the lines of an execution are numbered from one on, without a gap. -/
def IsGapless (id : String) (log : List LogLine) : Prop :=
  (linesFor id log).map (·.sequence) = sequencesAfter 0 (linesFor id log).length

theorem linesFor_append (id : String) (log lines : List LogLine) :
    linesFor id (log ++ lines) = linesFor id log ++ linesFor id lines :=
  List.filter_append _ _

theorem linesFor_own {id : String} {lines : List LogLine} (h : ∀ line ∈ lines, line.executionId = id) :
    linesFor id lines = lines :=
  List.filter_eq_self.mpr fun line hline => beq_iff_eq.mpr (h line hline)

theorem linesFor_other {id other : String} {lines : List LogLine}
    (h : ∀ line ∈ lines, line.executionId = id) (hne : other ≠ id) : linesFor other lines = [] :=
  List.filter_eq_nil_iff.mpr fun line hline heq => hne ((beq_iff_eq.mp heq).symm.trans (h line hline))

namespace Stage

/-- What a call at position `n` adds to the log, and the position that it leaves. -/
def NumbersOn (before after : Stage) : Prop :=
  ∀ n, before.executor.sequence = .ofNat n →
    ∃ lines, after.site.log = before.site.log ++ lines ∧
      (∀ line ∈ lines, line.executionId = before.executor.executionId) ∧
      lines.map (·.sequence) = sequencesAfter n lines.length ∧
      after.executor.sequence = .ofNat (n + lines.length)

variable {before middle after : Stage}

theorem NumbersOn.of_silent (hlog : after.site.log = before.site.log)
    (hsequence : after.executor.sequence = before.executor.sequence) : before.NumbersOn after := by
  intro n hn
  refine ⟨[], ?_, List.forall_mem_nil _, rfl, ?_⟩
  · rw [hlog, List.append_nil]
  · rw [hsequence, hn]
    rfl

theorem NumbersOn.trans (hid : middle.executor.executionId = before.executor.executionId)
    (hfirst : before.NumbersOn middle) (hsecond : middle.NumbersOn after) : before.NumbersOn after := by
  intro n hn
  obtain ⟨lines, hlog, hown, hsequences, hmiddle⟩ := hfirst n hn
  obtain ⟨later, hlaterLog, hlaterOwn, hlaterSequences, hafter⟩ := hsecond _ hmiddle
  refine ⟨lines ++ later, ?_, ?_, ?_, ?_⟩
  · rw [hlaterLog, hlog, List.append_assoc]
  · rw [hid] at hlaterOwn
    exact List.forall_mem_append.mpr ⟨hown, hlaterOwn⟩
  · rw [List.map_append, hsequences, hlaterSequences, sequencesAfter_append, List.length_append]
  · rw [hafter, List.length_append, Nat.add_assoc]

theorem numbersOn_logged (stage : Stage) (resource state message : String) :
    stage.NumbersOn (stage.logged resource state message) := by
  intro n hn
  have hnext : stage.executor.sequence + 1 = .ofNat (n + 1) := by
    rw [hn, UInt64.ofNat_add]
    rfl
  exact ⟨[_], rfl, List.forall_mem_singleton.mpr rfl, congrArg (fun sequence => [sequence]) hnext, hnext⟩

theorem numbersOn_change (stage : Stage) (change : Change) : stage.NumbersOn (stage.change change) := by
  have hrecorded : ∀ change, stage.NumbersOn (stage.recorded change) := by
    intro change
    have hsite := stage.site_recorded change
    have hview := stage.view_recorded change
    exact .of_silent (by rw [hsite]) (congrArg (·.executor.sequence) hview)
  cases change with
  | written resource state message => exact stage.numbersOn_logged resource state message
  | entered state => exact hrecorded _
  | ended result => exact hrecorded _
  | fetched => exact .of_silent rfl rfl
  | handedOff resource input => exact .of_silent rfl rfl

theorem numbersOn_changed (stage : Stage) (changes : List Change) :
    stage.NumbersOn (stage.changed changes) := by
  induction changes generalizing stage with
  | nil => exact .of_silent rfl rfl
  | cons change rest ih =>
      exact (stage.numbersOn_change change).trans (stage.confined_change change).executionId (ih _)

end Stage

end Workflow
