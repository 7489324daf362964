import LocalOptimization.Linear.Solve

/-!
# Secant Jacobians

A Jacobian `J` that takes in a step `s` with the change `y` of the residuals by the least change
after which `J·s = y`, namely `J + (y - J·s)·sᵗ / sᵗs`.
-/

namespace LocalOptimization

/-- A Jacobian under rank-one secant updates. -/
structure Secant (K : Type) (n : Nat) where
  jacobian : Matrix K n

namespace Secant

variable {K : Type} [Scalar K] {n : Nat}

/-- The model learns only from steps whose squared length exceeds this value. -/
def minStepSquared : K :=
  1e-24

/-- The step that solves `J·d = -F`. -/
def step (m : Secant K n) (residuals : Vector K n) : LinearSolution K n :=
  solveLinear m.jacobian (-residuals)

/-- The model after a step, unless the step is skipped. -/
def update? (m : Secant K n) (s y : Vector K n) : Option (Secant K n) :=
  let ss := dot s s
  if minStepSquared < ss then
    some { jacobian := m.jacobian + (1.0 / ss) * outer (y - mulVec m.jacobian s) s }
  else
    none

end Secant

end LocalOptimization
