/-!
# Shortest decimals

The text of a double: the fewest significant digits that read back as the same double, in
positional notation. Among decimals of that length the nearest to the double is written, and of
two equally near the one farther from zero.
-/

namespace LocalOptimization.Decimal

/-- A finite double above zero as an interval of fractions `low`, `value` and `high` over
`denominator`. Every number strictly between `low` and `high` rounds to the double. -/
structure Interval where
  /-- The point where rounding leaves the double downwards. -/
  low : Nat
  value : Nat
  /-- The point where rounding leaves the double upwards. -/
  high : Nat
  denominator : Nat
  /-- The two end points round to the double as well. -/
  closed : Bool

/-- The interval of the double `significand · 2^(exponent - 1074)`. Below a power of two, other than
the least one, the next double is at half the distance. -/
def Interval.ofParts (significand exponent : Nat) : Interval :=
  let below := if significand = Nat.pow 2 52 ∧ 0 < exponent then 1 else 2
  { low := (4 * significand - below) * Nat.pow 2 exponent
    value := 4 * significand * Nat.pow 2 exponent
    high := (4 * significand + 2) * Nat.pow 2 exponent
    denominator := Nat.pow 2 1076
    closed := significand % 2 = 0 }

/-- The interval of the double with the given bits, the sign apart. -/
def Interval.ofBits (bits : UInt64) : Interval :=
  let fraction := bits.toNat % Nat.pow 2 52
  let biased := bits.toNat / Nat.pow 2 52 % Nat.pow 2 11
  if biased = 0 then ofParts fraction 0 else ofParts (Nat.pow 2 52 + fraction) (biased - 1)

/-- A decimal `digits · 10^(scale - 400)`. -/
structure Digits where
  digits : Nat
  /-- The place of the last digit, counted from `10⁻⁴⁰⁰`. -/
  scale : Nat

namespace Interval

/-- The numerator over `denominator · 10^400` of a decimal. -/
def numerator (i : Interval) (d : Digits) : Nat :=
  d.digits * Nat.pow 10 d.scale * i.denominator

/-- The decimal reads back as the double. -/
def accepts (i : Interval) (d : Digits) : Bool :=
  let low := i.low * Nat.pow 10 400
  let high := i.high * Nat.pow 10 400
  let num := i.numerator d
  if i.closed then decide (low ≤ num) && decide (num ≤ high)
  else decide (low < num) && decide (num < high)

/-- The nearer of the two neighbours of the double on a grid, if it reads back. -/
def onGrid? (i : Interval) (scale : Nat) : Option Digits :=
  let value := i.value * Nat.pow 10 400
  let down : Digits := { digits := value / (Nat.pow 10 scale * i.denominator), scale }
  let up : Digits := { down with digits := down.digits + 1 }
  match i.accepts down, i.accepts up with
  | true, true => if value - i.numerator down < i.numerator up - value then down else up
  | true, false => down
  | false, true => up
  | false, false => none

/-- The shortest decimal that reads back: the one on the coarsest grid. -/
def shortest (i : Interval) : Option Digits :=
  (List.range 720).findSome? fun k => i.onGrid? (719 - k)

end Interval

/-- The decimal without an exponent. -/
def Digits.text (d : Digits) : String :=
  let digits := toString d.digits
  if 400 ≤ d.scale then
    digits ++ "".pushn '0' (d.scale - 400)
  else
    let places := 400 - d.scale
    let padded := "".pushn '0' (places + 1 - digits.length) ++ digits
    let whole := padded.length - places
    (padded.take whole).toString ++ "." ++ (padded.drop whole).toString

/-- The text of a double. -/
def text (a : Float) : String :=
  if a.isNaN then "NaN"
  else
    let sign := if a.toBits >>> 63 == 1 then "-" else ""
    let magnitude :=
      if a.isInf then "inf"
      else if a == 0.0 then "0"
      else ((Interval.ofBits a.toBits).shortest.map Digits.text).getD "0"
    sign ++ magnitude

end LocalOptimization.Decimal
