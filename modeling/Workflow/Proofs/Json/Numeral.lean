import Workflow.Json.Numeral
import Workflow.Json.Printer

/-!
# Reading written integers

The digits of a natural number are read as that number. An integer of at most 64 bits is written
without a point or an exponent, so it comes back as an integer, unless what follows goes on with the
numeral.
-/

namespace Workflow

/-- Digits as they are written, as the numbers that they stand for. -/
def digitsOf (chars : List Char) : List Nat :=
  chars.map fun c => c.toNat - '0'.toNat

theorem spanDigits_append {digits rest : List Char} (hdigits : ∀ c ∈ digits, c.isDigit = true)
    (hrest : ∀ c tail, rest = c :: tail → c.isDigit = false) :
    spanDigits (digits ++ rest) = (digitsOf digits, rest) := by
  induction digits with
  | nil =>
      cases rest with
      | nil => rfl
      | cons c tail =>
          change spanDigits (c :: tail) = ([], c :: tail)
          rw [spanDigits, hrest c tail rfl]
          rfl
  | cons c digits ih =>
      obtain ⟨hc, hdigits⟩ := List.forall_mem_cons.mp hdigits
      rw [List.cons_append, spanDigits, hc, ih hdigits]
      rfl

theorem digitsValue_digitsOf (chars : List Char) :
    digitsValue (digitsOf chars) = Nat.ofDigitChars 10 chars 0 := by
  rw [digitsValue, digitsOf, List.foldl_map, Nat.ofDigitChars_eq_foldl]

theorem digitsValue_toDigits (n : Nat) : digitsValue (digitsOf (Nat.toDigits 10 n)) = n := by
  rw [digitsValue_digitsOf, Nat.ofDigitChars_ten_toDigits]

theorem isDigit_of_mem_toDigits {n : Nat} {c : Char} (h : c ∈ Nat.toDigits 10 n) :
    c.isDigit = true :=
  Nat.isDigit_of_mem_toDigits (by decide) (by decide) h

/-- Only zero starts with a zero. -/
theorem digitsOf_toDigits_ne (n digit : Nat) (digits : List Nat) :
    digitsOf (Nat.toDigits 10 n) ≠ 0 :: digit :: digits := by
  induction n using Nat.strongRecOn generalizing digit digits with
  | ind n ih =>
      by_cases hsmall : n < 10
      · rw [Nat.toDigits_of_lt_base hsmall]
        simp [digitsOf]
      · rw [Nat.toDigits_of_base_le (by decide) (by omega), digitsOf, List.map_append]
        change digitsOf (Nat.toDigits 10 (n / 10)) ++ _ ≠ _
        have hvalue := digitsValue_toDigits (n / 10)
        have hshorter := ih (n / 10) (by omega)
        generalize digitsOf (Nat.toDigits 10 (n / 10)) = leading at hvalue hshorter
        intro heq
        -- What is in front of the last digit is not zero, and does not start with a zero either.
        match leading with
        | [] =>
            change 0 = n / 10 at hvalue
            omega
        | [first] =>
            obtain rfl : first = 0 := (List.cons.inj heq).1
            change 0 = n / 10 at hvalue
            omega
        | first :: second :: more =>
            obtain rfl : first = 0 := (List.cons.inj heq).1
            exact hshorter _ _ rfl

namespace Numeral

/-- A text that no numeral in front of it runs on into. -/
structure Ends (rest : List Char) : Prop where
  not_isDigit : ∀ c tail, rest = c :: tail → c.isDigit = false
  not_point : ∀ tail, rest ≠ '.' :: tail
  not_exponent : ∀ c tail, rest = c :: tail → ¬(c = 'e' ∨ c = 'E')

theorem ends_nil : Ends [] :=
  ⟨fun _ _ h => (nomatch h), fun _ h => (nomatch h), fun _ _ h => (nomatch h)⟩

theorem ends_cons {c : Char} {tail : List Char} (h : c = ',' ∨ c = ']' ∨ c = '\x7d') :
    Ends (c :: tail) := by
  refine ⟨?_, ?_, ?_⟩
  · rintro _ _ ⟨⟩
    rcases h with rfl | rfl | rfl <;> rfl
  · rintro _ ⟨⟩
    simp at h
  · rintro _ _ ⟨⟩
    rcases h with rfl | rfl | rfl <;> decide

variable {rest : List Char}

theorem splitFraction_of_ends (h : Ends rest) : splitFraction rest = .ok ([], rest) := by
  unfold splitFraction
  split
  · exact absurd rfl (h.not_point _)
  · rfl

theorem splitExponent_of_ends (h : Ends rest) : splitExponent rest = .ok (none, rest) := by
  cases rest with
  | nil => rfl
  | cons c tail => rw [splitExponent, if_neg (h.not_exponent c tail rfl)]

theorem splitWhole_toDigits (h : Ends rest) (n : Nat) :
    splitWhole (Nat.toDigits 10 n ++ rest) = .ok (digitsOf (Nat.toDigits 10 n), rest) := by
  have hspan := spanDigits_append (fun _ => isDigit_of_mem_toDigits (n := n)) h.not_isDigit
  have hempty : digitsOf (Nat.toDigits 10 n) ≠ [] := by
    rw [digitsOf, ne_eq, List.map_eq_nil_iff]
    exact Nat.toDigits_ne_nil
  have hzero := digitsOf_toDigits_ne n
  unfold splitWhole
  rw [hspan]
  generalize digitsOf (Nat.toDigits 10 n) = digits at hempty hzero
  split
  · rename_i heq
    exact absurd (congrArg Prod.fst heq) hempty
  · rename_i heq
    exact absurd (congrArg Prod.fst heq) (hzero _ _)
  · rename_i heq
    rw [heq]

/-- The numeral that an integer is written as. -/
def ofInt (n : Int) : Numeral :=
  { negative := decide (n < 0)
    whole := digitsOf (Nat.toDigits 10 n.natAbs)
    fraction := []
    exponent := none }

theorem splitUnsigned_toDigits (h : Ends rest) (negative : Bool) (n : Nat) :
    splitUnsigned negative (Nat.toDigits 10 n ++ rest) =
      .ok
        ({ negative
           whole := digitsOf (Nat.toDigits 10 n)
           fraction := []
           exponent := none }, rest) := by
  unfold splitUnsigned
  simp only [splitWhole_toDigits h, splitFraction_of_ends h, splitExponent_of_ends h, bind,
    Except.bind, pure, Except.pure]

theorem split_integerChars (h : Ends rest) (n : Int) :
    split (Json.integerChars n ++ rest) = .ok (ofInt n, rest) := by
  unfold Json.integerChars
  split
  · rename_i hnegative
    rw [List.cons_append, split, splitUnsigned_toDigits h, ofInt, decide_eq_true hnegative]
  · rename_i hnegative
    have hsign : ∀ tail, Nat.toDigits 10 n.natAbs ++ rest ≠ '-' :: tail := by
      intro tail heq
      obtain ⟨c, digits, hdigits⟩ := List.exists_cons_of_ne_nil
        (Nat.toDigits_ne_nil (n := n.natAbs) (b := 10))
      have hc := isDigit_of_mem_toDigits (n := n.natAbs) (hdigits ▸ List.mem_cons_self)
      rw [hdigits, List.cons_append] at heq
      rw [(List.cons.inj heq).1] at hc
      exact absurd hc (by decide)
    unfold split
    split
    · rename_i heq
      exact absurd heq (hsign _)
    · rw [splitUnsigned_toDigits h, ofInt, decide_eq_false hnegative]

theorem value_ofInt {n : Int} (low : -0x8000000000000000 ≤ n) (high : n < 0x10000000000000000) :
    (ofInt n).value = .ok (.integer n low high) := by
  have hsigned : (if decide (n < 0) then -(n.natAbs : Int) else n.natAbs) = n := by
    by_cases hnegative : n < 0
    · rw [decide_eq_true hnegative, if_pos rfl]
      omega
    · rw [decide_eq_false hnegative, if_neg Bool.false_ne_true]
      omega
  have hzero : ¬(decide (n < 0) = true ∧ n = 0) := by
    rw [decide_eq_true_eq]
    omega
  unfold value ofInt
  simp only [List.isEmpty_nil, Option.isNone_none, Bool.and_self, if_true, digitsValue_toDigits,
    hsigned]
  rw [dif_pos ⟨low, high, hzero⟩]

end Numeral

end Workflow
