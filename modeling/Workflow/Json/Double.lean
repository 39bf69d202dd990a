/-!
Finite binary64 numbers and their text: the fewest decimal digits that round to the number, the
nearest such decimal if there are several. The choice of digits is exact arithmetic on natural
numbers; where positional notation gives way to an exponent is one record, `Double.layout`.
-/

namespace Workflow

/-- The exponent field is not all ones, so the bits are neither an infinity nor a NaN. -/
def finiteBits (bits : UInt64) : Bool :=
  bits >>> 52 &&& 0x7ff != 0x7ff

structure Double where
  bits : UInt64
  finite : finiteBits bits = true
  deriving DecidableEq

/-- A number `digits * 10 ^ exponent`. -/
structure Decimal where
  digits : Nat
  exponent : Int
  deriving DecidableEq

/-- The numbers that round to a double: from `low / unit` to `high / unit` around `center / unit`. -/
structure RoundingInterval where
  low : Nat
  center : Nat
  high : Nat
  unit : Nat
  /-- Whether the two ends round to the double too. -/
  closed : Bool

namespace RoundingInterval

/-- The same interval with ten to the `exponent` as the unit of measure. -/
def rescale (interval : RoundingInterval) (exponent : Int) : RoundingInterval :=
  let grow := Nat.pow 10 (-exponent).toNat
  { interval with
    low := interval.low * grow
    center := interval.center * grow
    high := interval.high * grow
    unit := interval.unit * Nat.pow 10 exponent.toNat }

def contains (interval : RoundingInterval) (n : Nat) : Bool :=
  let point := n * interval.unit
  if interval.closed then interval.low ≤ point && point ≤ interval.high
  else interval.low < point && point < interval.high

/-- The whole number in the interval that is nearest to its center; a tie goes to the even one. -/
def nearest? (interval : RoundingInterval) : Option Nat :=
  let below := interval.center / interval.unit
  let above := below + 1
  match interval.contains below, interval.contains above with
  | false, false => none
  | true, false => some below
  | false, true => some above
  | true, true =>
    match compare (2 * interval.center) ((below + above) * interval.unit) with
    | .lt => some below
    | .gt => some above
    | .eq => some (if below % 2 = 0 then below else above)

def countDigits (n : Nat) : Nat :=
  (Nat.toDigits 10 n).length

/-- The exponent of ten at the center's first digit. -/
def magnitude (interval : RoundingInterval) : Int :=
  let guess := (countDigits interval.center : Int) - countDigits interval.unit
  let scaled := interval.rescale guess
  if scaled.unit ≤ scaled.center then guess else guess - 1

/-- A decimal of fewest digits in the interval. Seventeen digits always suffice. -/
def shortest (interval : RoundingInterval) : Decimal :=
  let first := interval.magnitude
  let found := (List.range 17).findSome? fun (extra : Nat) =>
    let exponent := first - (extra : Int)
    (interval.rescale exponent).nearest?.map (Decimal.mk · exponent)
  match found with
  | some decimal =>
    if decimal.digits % 10 = 0 then ⟨decimal.digits / 10, decimal.exponent + 1⟩ else decimal
  | none => ⟨0, 0⟩

end RoundingInterval

/-- How a nonzero decimal is laid out as text. -/
structure DoubleLayout where
  /-- First digits at least this far from the units place are written positionally. -/
  leastPositional : Int
  /-- First digits at least this far from the units place are written with an exponent. -/
  leastScientific : Int
  /-- The sign in front of an exponent that is not negative. -/
  exponentSign : List Char
  /-- What follows a whole number in positional notation. -/
  wholeEnding : List Char

namespace Double

def isNegative (x : Double) : Bool :=
  x.bits >>> 63 == 1

def exponentField (x : Double) : Nat :=
  (x.bits >>> 52 &&& 0x7ff).toNat

def fractionField (x : Double) : Nat :=
  (x.bits &&& 0xfffffffffffff).toNat

def isZero (x : Double) : Bool :=
  x.exponentField == 0 && x.fractionField == 0

/-- Equality of values, under which the two zeros are equal. -/
def sameValue (x y : Double) : Bool :=
  x.bits == y.bits || x.isZero && y.isZero

/-- Whether the neighbour nearer to zero is only half as far away as the other one. -/
def startsBinade (x : Double) : Bool :=
  x.fractionField == 0 && 1 < x.exponentField

/-- The magnitude is `significand * 2 ^ scale`. -/
def significand (x : Double) : Nat :=
  if x.exponentField = 0 then x.fractionField else x.fractionField + 0x10000000000000

def scale (x : Double) : Int :=
  (max x.exponentField 1 : Int) - 1075

def roundingInterval (x : Double) : RoundingInterval :=
  let quarter := x.scale - 2
  let grow := Nat.pow 2 quarter.toNat
  let center := 4 * x.significand
  { low := (center - if x.startsBinade then 1 else 2) * grow
    center := center * grow
    high := (center + 2) * grow
    unit := Nat.pow 2 (-quarter).toNat
    closed := x.significand % 2 == 0 }

/-- Positional from `0.00001` up to sixteen places in front of the point, always with a fraction;
otherwise an exponent with its sign. -/
def layout : DoubleLayout :=
  { leastPositional := -5
    leastScientific := 16
    exponentSign := ['+']
    wholeEnding := ['.', '0'] }

end Double

/-- The decimal as text under a layout. -/
def Decimal.chars (decimal : Decimal) (layout : DoubleLayout) : List Char :=
  let digits := Nat.toDigits 10 decimal.digits
  let lead := decimal.exponent + digits.length - 1
  if layout.leastPositional ≤ lead ∧ lead < layout.leastScientific then
    if 0 ≤ decimal.exponent then
      digits ++ List.replicate decimal.exponent.toNat '0' ++ layout.wholeEnding
    else if 0 ≤ lead then
      digits.take (lead.toNat + 1) ++ '.' :: digits.drop (lead.toNat + 1)
    else
      '0' :: '.' :: List.replicate (-lead - 1).toNat '0' ++ digits
  else
    let fraction := if digits.length = 1 then [] else '.' :: digits.drop 1
    let sign := if lead < 0 then ['-'] else layout.exponentSign
    digits.take 1 ++ fraction ++ 'e' :: sign ++ Nat.toDigits 10 lead.natAbs

namespace Double

def magnitudeChars (x : Double) : List Char :=
  if x.isZero then '0' :: layout.wholeEnding
  else x.roundingInterval.shortest.chars layout

def chars (x : Double) : List Char :=
  if x.isNegative then '-' :: x.magnitudeChars else x.magnitudeChars

/-- The double with the value of a finite machine number, if it is finite. -/
def ofFloat? (x : Float) : Option Double :=
  if h : finiteBits x.toBits = true then some ⟨x.toBits, h⟩ else none

end Double

end Workflow
