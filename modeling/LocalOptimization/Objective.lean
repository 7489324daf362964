import LocalOptimization.Difference

/-!
# Objectives

An objective is what a method minimizes: a value, a gradient and perhaps a Hessian at every point.
Each of them may fail with an error of the caller's type `ε`.
-/

namespace LocalOptimization

/-- A function to minimize. Without a gradient of its own it is differentiated by central
differences. -/
structure Objective (K : Type) [Scalar K] (n : Nat) (ε : Type) where
  value : Vector K n → Except ε K
  gradient : Vector K n → Except ε (Vector K n) := Difference.gradient value
  /-- The Hessian at a point, if the objective provides one. -/
  hessian : Vector K n → Except ε (Option (Matrix K n)) := fun _ => .ok none
  /-- The points where the objective is defined; elsewhere its value counts as infinite. -/
  domain : Vector K n → Bool := fun _ => true

/-- The value and the gradient at a point. -/
structure Evaluation (K : Type) (n : Nat) where
  x : Vector K n
  value : K
  gradient : Vector K n

variable {K : Type} [Scalar K] {n : Nat} {ε : Type}

namespace Evaluation

/-- The Euclidean norm of the gradient. -/
def gradientNorm (e : Evaluation K n) : K :=
  norm e.gradient

/-- The value and every gradient entry are finite. -/
def isFinite (e : Evaluation K n) : Bool :=
  Scalar.isFinite e.value && allFinite e.gradient

end Evaluation

namespace Objective

/-- Evaluates the value and then the gradient. -/
def evaluate (f : Objective K n ε) (x : Vector K n) : Except ε (Evaluation K n) := do
  let value ← f.value x
  let gradient ← f.gradient x
  return { x, value, gradient }

/-- The value `v` at `x` counts as finite. -/
def isFiniteAt (f : Objective K n ε) (x : Vector K n) (v : K) : Bool :=
  f.domain x && Scalar.isFinite v

end Objective

end LocalOptimization
