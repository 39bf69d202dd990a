import Mathlib.Data.List.Forall2
import Workflow.Json.Literal
import Workflow.Json.Printer

/-!
# Reading written strings

Each character of a string is written as one piece of a literal, so the literal splits into as many
pieces as the string has characters. A control character comes back as a code unit, which is no
surrogate and so stands for itself.
-/

namespace Workflow.Literal

open Json (escapedChar literalChars)

/-- A piece that stands for a character, whatever stands around it. -/
inductive Piece.Spells : Piece → Char → Prop
  | char (c : Char) : Spells (.char c) c
  | control {c : Char} (h : c.toNat < 0x20) : Spells (.unit c.toNat) c

theorem hexDigit?_hexDigit : ∀ n < 16, hexDigit? (Text.hexDigit n) = some n := by
  decide

/-- The four digits of a code unit are read as that unit. -/
theorem exists_hexDigits_eq {n : Nat} (h : n < 0x10000) :
    ∃ a b c d, Text.hexDigits 4 n = [a, b, c, d] ∧ hexUnit? a b c d = some n := by
  refine ⟨_, _, _, _, rfl, ?_⟩
  unfold hexUnit?
  rw [hexDigit?_hexDigit _ (Nat.mod_lt _ (by decide)), hexDigit?_hexDigit _ (Nat.mod_lt _ (by decide)),
    hexDigit?_hexDigit _ (Nat.mod_lt _ (by decide)), hexDigit?_hexDigit _ (Nat.mod_lt _ (by decide))]
  simp only [Option.bind_eq_bind, Option.bind_some, Option.pure_def, Option.some.injEq]
  omega

theorem split_escape {c stood : Char} (hshort : shortEscape? c = some stood) (rest : List Char) :
    split ('\\' :: c :: rest) = (.char stood :: (split rest).1, (split rest).2) := by
  have hu : c ≠ 'u' := by
    intro heq
    rw [heq] at hshort
    cases hshort
  rw [split.eq_def]
  split <;> grind

theorem split_plain {c : Char} (hquote : c ≠ '"') (hslash : c ≠ '\\') (hshown : ¬c.toNat < 0x20)
    (rest : List Char) : split (c :: rest) = (.char c :: (split rest).1, (split rest).2) := by
  rw [split.eq_def]
  split <;> simp_all

theorem split_unit {n : Nat} (h : n < 0x10000) (rest : List Char) :
    split ('\\' :: 'u' :: Text.hexDigits 4 n ++ rest) =
      (.unit n :: (split rest).1, (split rest).2) := by
  obtain ⟨a, b, c, d, hdigits, hunit⟩ := exists_hexDigits_eq h
  rw [hdigits]
  simp only [List.cons_append, List.nil_append]
  rw [split]
  simp only [hunit]

/-- Whatever follows it, a written character is split off as a piece that stands for it. -/
theorem exists_split_escapedChar (c : Char) :
    ∃ piece : Piece, piece.Spells c ∧ ∀ rest,
      split (escapedChar c ++ rest) = (piece :: (split rest).1, (split rest).2) := by
  have hshort : ∀ {letter : Char}, escapedChar c = ['\\', letter] → shortEscape? letter = some c →
      ∃ piece : Piece, piece.Spells c ∧ ∀ rest,
        split (escapedChar c ++ rest) = (piece :: (split rest).1, (split rest).2) := by
    intro letter hescaped hletter
    refine ⟨.char c, .char c, fun rest => ?_⟩
    rw [hescaped]
    exact split_escape hletter rest
  by_cases hquote : c = '"'
  · subst hquote
    exact hshort rfl rfl
  by_cases hslash : c = '\\'
  · subst hslash
    exact hshort rfl rfl
  by_cases hb : c = '\x08'
  · subst hb
    exact hshort rfl rfl
  by_cases hf : c = '\x0c'
  · subst hf
    exact hshort rfl rfl
  by_cases hn : c = '\n'
  · subst hn
    exact hshort rfl rfl
  by_cases hr : c = '\r'
  · subst hr
    exact hshort rfl rfl
  by_cases ht : c = '\t'
  · subst ht
    exact hshort rfl rfl
  by_cases hcontrol : c.toNat < 0x20
  · refine ⟨.unit c.toNat, .control hcontrol, fun rest => ?_⟩
    have hescaped : escapedChar c = '\\' :: 'u' :: Text.hexDigits 4 c.toNat := by
      simp only [escapedChar, hquote, hslash, hb, hf, hn, hr, ht, hcontrol, or_self, if_false, if_true]
    rw [hescaped]
    exact split_unit (by omega) rest
  · refine ⟨.char c, .char c, fun rest => ?_⟩
    have hescaped : escapedChar c = [c] := by
      simp only [escapedChar, hquote, hslash, hb, hf, hn, hr, ht, hcontrol, or_self, if_false]
    rw [hescaped]
    exact split_plain hquote hslash hcontrol rest

theorem exists_split_flatMap (chars rest : List Char) :
    ∃ pieces, List.Forall₂ Piece.Spells pieces chars ∧
      split (chars.flatMap escapedChar ++ '"' :: rest) = (pieces, .closed rest) := by
  induction chars with
  | nil => exact ⟨[], .nil, by rw [List.flatMap_nil, List.nil_append, split]⟩
  | cons c chars ih =>
      obtain ⟨pieces, hpieces, hsplit⟩ := ih
      obtain ⟨piece, hpiece, hfirst⟩ := exists_split_escapedChar c
      refine ⟨piece :: pieces, .cons hpiece hpieces, ?_⟩
      rw [List.flatMap_cons, List.append_assoc, hfirst, hsplit]

/-- A control character is no surrogate. -/
theorem join_unit {code : Nat} (h : code < 0x20) (ending : Ending) (pieces : List Piece) :
    join ending (.unit code :: pieces) = (Char.ofNat code :: ·) <$> join ending pieces := by
  have hlead : isLead code = false := by
    simp only [isLead, Bool.and_eq_false_iff, decide_eq_false_iff_not]
    omega
  have htrail : isTrail code = false := by
    simp only [isTrail, Bool.and_eq_false_iff, decide_eq_false_iff_not]
    omega
  cases pieces with
  | nil => simp only [join, hlead, htrail, Bool.false_eq_true, if_false]
  | cons piece pieces =>
      cases piece <;> simp only [join, hlead, htrail, Bool.false_eq_true, if_false]

theorem join_of_spells {pieces : List Piece} {chars : List Char}
    (h : List.Forall₂ Piece.Spells pieces chars) (rest : List Char) :
    join (.closed rest) pieces = .ok chars := by
  induction h with
  | nil => rfl
  | cons hpiece _ ih =>
      cases hpiece with
      | char c =>
          rw [join, ih]
          rfl
      | control hcontrol =>
          rw [join_unit hcontrol, ih, Char.ofNat_toNat]
          rfl

/-- A written string is read as that string. -/
theorem split_literalChars (text : String) (rest : List Char) :
    ∃ pieces, split (text.toList.flatMap escapedChar ++ '"' :: rest) = (pieces, .closed rest) ∧
      content pieces (.closed rest) = .ok text := by
  obtain ⟨pieces, hpieces, hsplit⟩ := exists_split_flatMap text.toList rest
  refine ⟨pieces, hsplit, ?_⟩
  rw [content, join_of_spells hpieces]
  exact congrArg Except.ok String.ofList_toList

end Workflow.Literal
