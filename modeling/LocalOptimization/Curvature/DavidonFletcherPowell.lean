import LocalOptimization.Curvature.Lbfgs

/-!
# Davidon-Fletcher-Powell updates

A dense inverse Hessian `H`, at first the identity, that takes in a pair by
`H - (H·y)(H·y)ᵗ / yᵗH·y + s·sᵗ / yᵗs`.
-/

namespace LocalOptimization

/-- A dense inverse Hessian under rank-two updates. -/
structure DavidonFletcherPowell (K : Type) (n : Nat) where
  inverseHessian : Matrix K n

namespace DavidonFletcherPowell

variable {K : Type} [Arithmetic K] {n : Nat}

/-- The model before any pair. -/
def initial : DavidonFletcherPowell K n where
  inverseHessian := identity

/-- The direction at gradient `g`. -/
def direction (m : DavidonFletcherPowell K n) (g : Vector K n) : Vector K n :=
  -mulVec m.inverseHessian g

/-- The model after a pair, unless the pair is skipped. -/
def update? (m : DavidonFletcherPowell K n) (s y : Vector K n) :
    Option (DavidonFletcherPowell K n) :=
  let ys := dot y s
  let hy := mulVec m.inverseHessian y
  let yhy := dot y hy
  if minCurvature < ys ∧ minCurvature < yhy then
    some { inverseHessian :=
      m.inverseHessian + (-1.0 / yhy) * outer hy hy + (1.0 / ys) * outer s s }
  else
    none

end DavidonFletcherPowell

end LocalOptimization
