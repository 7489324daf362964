import LocalOptimization.Scalar

/-!
# Doubles as scalars

The operations are those of binary64: rounded to nearest, with signed zeros, infinities and NaN.
-/

namespace LocalOptimization

/-- Doubles, with comparisons that are false on NaN. -/
instance instScalarFloat : Scalar Float where
  decidableLT := Float.decLt
  decidableLE := Float.decLe
  sqrt := Float.sqrt
  abs := Float.abs
  log := Float.log
  ofNat := Float.ofNat
  isFinite := Float.isFinite
  isNaN := Float.isNaN
  isNegative a := a.toBits >>> 63 == 1
  infinity := 1.0 / 0.0

end LocalOptimization
