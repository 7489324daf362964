import LocalOptimization.Linear.Solve

/-!
# Symmetric rank-one updates

A dense Hessian `B`, at first the identity, that takes in a pair by `B + r·rᵗ / rᵗs` with `r = y -
B·s`. It need not be positive definite, so its Newton direction may point uphill.
-/

namespace LocalOptimization

/-- A dense Hessian under symmetric rank-one updates. -/
structure SymmetricRankOne (K : Type) (n : Nat) where
  hessian : Matrix K n

namespace SymmetricRankOne

variable {K : Type} [Scalar K] {n : Nat}

/-- The model before any pair. -/
def initial : SymmetricRankOne K n where
  hessian := identity

/-- The Newton direction at gradient `g`, or steepest descent where the Hessian is singular or the
Newton direction does not descend. -/
def direction (m : SymmetricRankOne K n) (g : Vector K n) : Vector K n :=
  let newton := solveLinear m.hessian (-g)
  if newton.isRegular && decide (dot g newton.x < 0.0) then newton.x else -g

/-- The part of `‖r‖·‖s‖` below which the denominator `rᵗs` is too small. -/
def skipRatio : K :=
  1e-8

/-- The model after a pair, unless the pair is skipped. -/
def update? (m : SymmetricRankOne K n) (s y : Vector K n) : Option (SymmetricRankOne K n) :=
  let r := y - mulVec m.hessian s
  let rs := dot r s
  let threshold := skipRatio * norm r * norm s
  if Scalar.isNaN rs || decide (Scalar.abs rs ≤ threshold) || Scalar.isZero threshold then none
  else some { hessian := m.hessian + (1.0 / rs) * outer r r }

end SymmetricRankOne

end LocalOptimization
