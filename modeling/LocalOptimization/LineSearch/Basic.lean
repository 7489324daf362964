import LocalOptimization.Objective

/-!
# Steps along a direction

A line search looks for a step length `α` with which `x + α·d` is acceptable. It never fails for
want of one: it then hands back a step that is marked as not satisfying.
-/

namespace LocalOptimization.LineSearch

/-- Why the parameters of a line search are refused. -/
inductive ConfigError where
  /-- The sufficient-decrease constant lies outside its range. -/
  | sufficientDecrease
  /-- The curvature constant lies outside its range. -/
  | curvature
  /-- The shrink factor lies outside its range. -/
  | shrink
  /-- No trial is allowed. -/
  | maxIters
  deriving DecidableEq, Repr

/-- The text of a refusal. -/
def ConfigError.message : ConfigError → String
  | sufficientDecrease => "c1 must lie in (0, 1)"
  | curvature => "c2 must lie in (c1, 1)"
  | shrink => "shrink factor must lie in (0, 1)"
  | maxIters => "max_iters must be at least 1"

/-- A point, the objective and its gradient there, and a direction to search along. -/
structure Ray (K : Type) (n : Nat) where
  x : Vector K n
  /-- The objective at the point. -/
  value : K
  gradient : Vector K n
  direction : Vector K n

/-- A step along a ray. -/
structure Step (K : Type) (n : Nat) where
  alpha : K
  /-- The objective at the end of the step. -/
  value : K
  /-- The objective counts as finite there. -/
  finite : Bool
  /-- The gradient at the end of the step, if the search took it. -/
  gradient : Option (Vector K n)
  /-- The conditions of the search hold. -/
  satisfied : Bool
  /-- The number of values that the search took. -/
  evaluations : Nat

variable {K : Type} [Scalar K] {n : Nat} {ε : Type}

namespace Ray

/-- The slope of the objective at the start of the ray. -/
def slope (r : Ray K n) : K :=
  dot r.gradient r.direction

/-- The point at step length `alpha`. -/
def point (r : Ray K n) (alpha : K) : Vector K n :=
  r.x + alpha * r.direction

end Ray

/-- The step lowers the objective below `fx`. -/
def Step.decreases (s : Step K n) (fx : K) : Bool :=
  s.finite && decide (s.value < fx)

end LocalOptimization.LineSearch
