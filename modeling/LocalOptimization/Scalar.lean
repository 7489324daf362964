/-!
# Numbers that an algorithm runs on

Every algorithm of this library is written once, for any number type. `Arithmetic` holds what
linear algebra needs, `Scalar` adds what iterative methods ask of a number: roots, magnitudes and
the tests that tell a usable number from an infinity or a NaN. Doubles are an instance with
rounding and special values; an exact field is one without.
-/

namespace LocalOptimization

/-- Numbers with the four operations, an order that can be tested, and decimal literals. -/
class Arithmetic (K : Type) extends
    Add K, Sub K, Mul K, Div K, Neg K, LT K, LE K, OfScientific K where
  /-- The strict order can be tested. -/
  decidableLT : DecidableLT K
  /-- The order can be tested. -/
  decidableLE : DecidableLE K

namespace Arithmetic

instance instDecidableLT {K : Type} [Arithmetic K] : DecidableLT K :=
  decidableLT

instance instDecidableLE {K : Type} [Arithmetic K] : DecidableLE K :=
  decidableLE

end Arithmetic

/-- Numbers with square roots, magnitudes and logarithms, of which some may be infinite or
undefined. -/
class Scalar (K : Type) extends Arithmetic K where
  /-- The square root. -/
  sqrt : K → K
  /-- The magnitude. -/
  abs : K → K
  /-- The natural logarithm. -/
  log : K → K
  /-- The number of things counted. -/
  ofNat : Nat → K
  /-- The number is neither infinite nor undefined. -/
  isFinite : K → Bool
  /-- The number is undefined. -/
  isNaN : K → Bool
  /-- The number carries a minus sign; a zero may. -/
  isNegative : K → Bool
  /-- The number above all others, where there is one. -/
  infinity : K

namespace Scalar

variable {K : Type}

section Arithmetic

variable [Arithmetic K]

/-- The sum from left to right. It starts from negative zero, the neutral element of addition also
where zeros are signed. -/
def sum (xs : List K) : K :=
  xs.foldl (· + ·) (-0.0)

/-- The number equals zero, of either sign. -/
def isZero (a : K) : Bool :=
  decide (a ≤ 0.0) && decide (0.0 ≤ a)

/-- The number lies strictly between 0 and 1. -/
def inOpenUnit (a : K) : Bool :=
  decide (0.0 < a) && decide (a < 1.0)

end Arithmetic

variable [Scalar K]

/-- An undefined number, where there is one. -/
def nan : K :=
  infinity - infinity

/-- The distance from 1 to the next double, `2⁻⁵²`. -/
def epsilon : K :=
  2.220446049250313080847263336181640625e-16

/-- The larger of two numbers; an undefined one gives way to the other. -/
def max (a b : K) : K :=
  if a < b then b else if isNaN a then b else a

/-- The smaller of two numbers; an undefined one gives way to the other. -/
def min (a b : K) : K :=
  if b < a then b else if isNaN a then b else a

/-- The magnitude of `a` under the sign of `b`, for `a` without a minus sign. -/
def withSignOf (a b : K) : K :=
  if isNegative b then -a else a

/-- The magnitude of `a` is at most that of `b`; an undefined number ranks above infinity. -/
def magnitudeLE (a b : K) : Bool :=
  isNaN b || decide (abs a ≤ abs b)

/-- The number is finite and above zero. -/
def isPositive (a : K) : Bool :=
  isFinite a && decide (0.0 < a)

end Scalar

end LocalOptimization
