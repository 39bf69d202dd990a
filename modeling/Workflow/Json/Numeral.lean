import Workflow.Json.Basic
import Workflow.Json.ReadError
/-!
Numbers as written in a JSON text. A numeral is its parts: `Numeral.split?` takes them off the front
of a text, `Numeral.value` says which number they stand for.
-/

namespace Workflow

structure Numeral where
  negative : Bool
  whole : List Nat
  fraction : List Nat
  exponent : Option Int
  deriving DecidableEq

def spanDigits : List Char → List Nat × List Char
  | [] => ([], [])
  | c :: rest =>
    if c.isDigit then
      let (digits, rest) := spanDigits rest
      ((c.toNat - '0'.toNat) :: digits, rest)
    else ([], c :: rest)

theorem length_spanDigits_le (chars : List Char) :
    (spanDigits chars).2.length ≤ chars.length := by
  induction chars with
  | nil => simp [spanDigits]
  | cons c rest ih =>
    by_cases h : c.isDigit
    · simp only [spanDigits, h, if_true, List.length_cons]
      omega
    · simp [spanDigits, h]

def digitsValue (digits : List Nat) : Nat :=
  digits.foldl (fun n digit => 10 * n + digit) 0

namespace Numeral

/-- A numeral that breaks the grammar. When read, one that the text cuts short is told apart. -/
def malformed (rest : List Char) : Fault :=
  { read := if rest.isEmpty then .endInValue else .invalidNumber
    skipped := some .invalidNumber }

/-- A point must be followed by digits. -/
def splitFraction : List Char → Except Fault (List Nat × List Char)
  | '.' :: rest =>
    match spanDigits rest with
    | ([], rest) => .error (malformed rest)
    | (digits, rest) => .ok (digits, rest)
  | rest => .ok ([], rest)

def splitSign : List Char → Bool × List Char
  | '+' :: rest => (false, rest)
  | '-' :: rest => (true, rest)
  | rest => (false, rest)

def splitExponent : List Char → Except Fault (Option Int × List Char)
  | [] => .ok (none, [])
  | c :: rest =>
    if c = 'e' ∨ c = 'E' then
      let (negative, rest) := splitSign rest
      match spanDigits rest with
      | ([], rest) => .error (malformed rest)
      | (digits, rest) =>
        let n : Int := digitsValue digits
        .ok (some (if negative then -n else n), rest)
    else .ok (none, c :: rest)

/-- A whole part has at least one digit and does not start with a zero unless it is one. -/
def splitWhole (chars : List Char) : Except Fault (List Nat × List Char) :=
  match spanDigits chars with
  | ([], rest) => .error (malformed rest)
  | (0 :: _ :: _, _) => .error { read := .invalidNumber, skipped := some .invalidNumber }
  | (digits, rest) => .ok (digits, rest)

/-- The numeral at the front of a text whose sign has been taken off. -/
def splitUnsigned (negative : Bool) (chars : List Char) : Except Fault (Numeral × List Char) := do
  let (whole, rest) ← splitWhole chars
  let (fraction, rest) ← splitFraction rest
  let (exponent, rest) ← splitExponent rest
  return ({ negative, whole, fraction, exponent }, rest)

def split : List Char → Except Fault (Numeral × List Char)
  | '-' :: rest => splitUnsigned true rest
  | chars => splitUnsigned false chars

/-- The digits of `whole` as long as their value stays below `2 ^ 64`, and how many are left over. -/
def leadingWhole (start : Nat) : List Nat → Nat × Nat
  | [] => (start, 0)
  | digit :: rest =>
    if 10 * start + digit < UInt64.size then leadingWhole (10 * start + digit) rest
    else (start, rest.length + 1)

/-- The value goes on with the digits as long as it stays below `2 ^ 64`; how many were taken. -/
def leadingFraction (start : Nat) : List Nat → Nat × Nat
  | [] => (start, 0)
  | digit :: rest =>
    if 10 * start + digit < UInt64.size then
      let (value, taken) := leadingFraction (10 * start + digit) rest
      (value, taken + 1)
    else (start, 0)

def tenToThe (n : Nat) : Float :=
  .ofScientific 1 false n

/-- `x` over ten to the `n`, by steps of the largest power of ten that a double can hold. -/
def divideByTenToThe (x : Float) (n : Nat) : Float :=
  if n ≤ 308 then x / tenToThe n
  else if x == 0 then x
  else divideByTenToThe (x / tenToThe 308) (n - 308)
termination_by n

/-- `significand * 10 ^ exponent`, rounded once for the significand and once for each factor. -/
def scaled? (significand : Nat) (exponent : Int) : Option Float :=
  let x := significand.toUInt64.toFloat
  if exponent < 0 then some (divideByTenToThe x exponent.natAbs)
  else if exponent ≤ 308 then some (x * tenToThe exponent.toNat)
  else if x == 0 then some x
  else none

def signed (negative : Bool) (x : Float) : Float :=
  if negative then -x else x

/-- Exponents past this magnitude are not computed with. -/
def exponentLimit : Nat := 0x7fffffff

def toDouble (negative : Bool) (x : Option Float) : Except ReadError Number :=
  match x.bind fun x => Double.ofFloat? (signed negative x) with
  | some double => .ok (.double double)
  | none => .error .numberOutOfRange

/-- The double nearest to the leading digits, scaled by the exponent. -/
def approximate (numeral : Numeral) : Except ReadError Number :=
  let (whole, dropped) := leadingWhole 0 numeral.whole
  let (significand, taken) := leadingFraction whole numeral.fraction
  let exponent := numeral.exponent.getD 0
  if exponent.natAbs ≤ exponentLimit then
    toDouble numeral.negative (scaled? significand (dropped - taken + exponent))
  else if significand ≠ 0 ∧ 0 < exponent then
    .error .numberOutOfRange
  else
    toDouble numeral.negative (some 0)

/-- A whole number of at most 64 bits stays an integer, minus zero apart; all else is a double. -/
def value (numeral : Numeral) : Except ReadError Number :=
  if numeral.fraction.isEmpty && numeral.exponent.isNone then
    let n : Int := digitsValue numeral.whole
    let signed := if numeral.negative then -n else n
    if h : -0x8000000000000000 ≤ signed ∧ signed < 0x10000000000000000 ∧
        ¬(numeral.negative ∧ signed = 0) then
      .ok (.integer signed h.1 h.2.1)
    else numeral.approximate
  else numeral.approximate

theorem length_splitFraction_le {chars : List Char} {parts : List Nat × List Char}
    (h : splitFraction chars = .ok parts) : parts.2.length ≤ chars.length := by
  unfold splitFraction at h
  split at h
  · rename_i rest
    have := length_spanDigits_le rest
    split at h
    · contradiction
    · rename_i digits rest' heq
      cases h
      simp_all only [List.length_cons]
      omega
  · cases h
    exact Nat.le_refl _

theorem length_splitSign_le (chars : List Char) : (splitSign chars).2.length ≤ chars.length := by
  unfold splitSign
  split <;> simp

theorem length_splitExponent_le {chars : List Char} {parts : Option Int × List Char}
    (h : splitExponent chars = .ok parts) : parts.2.length ≤ chars.length := by
  unfold splitExponent at h
  split at h
  · cases h
    exact Nat.le_refl _
  · rename_i c rest
    split at h
    · have hsign := length_splitSign_le rest
      have hspan := length_spanDigits_le (splitSign rest).2
      simp only at h
      split at h
      · contradiction
      · rename_i digits rest' _ heq
        cases h
        simp only [heq] at hspan
        simp only [List.length_cons]
        omega
    · cases h
      exact Nat.le_refl _

theorem length_splitWhole_lt {chars : List Char} {parts : List Nat × List Char}
    (h : splitWhole chars = .ok parts) : parts.2.length < chars.length := by
  unfold splitWhole at h
  cases chars with
  | nil => simp [spanDigits] at h
  | cons c rest =>
    have hspan := length_spanDigits_le rest
    by_cases hc : c.isDigit
    · simp only [spanDigits, hc, if_true] at h
      split at h
      · contradiction
      · contradiction
      · cases h
        rename_i heq
        cases heq
        simp only [List.length_cons]
        omega
    · simp [spanDigits, hc] at h

theorem length_splitUnsigned_lt {negative : Bool} {chars : List Char} {parts : Numeral × List Char}
    (h : splitUnsigned negative chars = .ok parts) : parts.2.length < chars.length := by
  unfold splitUnsigned at h
  cases hw : splitWhole chars with
  | error => simp [hw, bind, Except.bind] at h
  | ok whole =>
    cases hf : splitFraction whole.2 with
    | error => simp [hw, hf, bind, Except.bind] at h
    | ok fraction =>
      cases he : splitExponent fraction.2 with
      | error => simp [hw, hf, he, bind, Except.bind] at h
      | ok exponent =>
        simp only [hw, hf, he, bind, Except.bind, pure, Except.pure, Except.ok.injEq] at h
        have := length_splitWhole_lt hw
        have := length_splitFraction_le hf
        have := length_splitExponent_le he
        subst h
        simp only
        omega

theorem length_split_lt {chars : List Char} {parts : Numeral × List Char}
    (h : split chars = .ok parts) : parts.2.length < chars.length := by
  unfold split at h
  split at h
  · have := length_splitUnsigned_lt h
    simp only [List.length_cons]
    omega
  · exact length_splitUnsigned_lt h

end Numeral

end Workflow
