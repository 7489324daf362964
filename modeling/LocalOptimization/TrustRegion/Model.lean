import LocalOptimization.Linear

/-!
# Quadratic models

The model `m(p) = f + gᵗp + ½·pᵗHp` of an objective around a point, and steps inside a ball.
-/

namespace LocalOptimization.TrustRegion

/-- The gradient and the Hessian of a quadratic model. -/
structure Model (K : Type) (n : Nat) where
  gradient : Vector K n
  hessian : Matrix K n

/-- A step that is proposed inside a ball. -/
structure Trial (K : Type) (n : Nat) where
  p : Vector K n
  /-- The step was cut at the boundary of the ball. -/
  onBoundary : Bool

variable {K : Type} [Scalar K] {n : Nat}

/-- The step that stays where it is. -/
def Trial.zero : Trial K n where
  p := zeros
  onBoundary := false

namespace Model

/-- The reduction `m(0) - m(p)` that the model predicts. -/
def predictedReduction (m : Model K n) (p : Vector K n) : K :=
  -dot m.gradient p - 0.5 * quadraticForm m.hessian p

/-- There is nowhere to go: the gradient vanishes, or the ball has no inside. -/
def isStuck (m : Model K n) (radius : K) : Bool :=
  Scalar.isZero (norm m.gradient) || decide (radius ≤ 0.0)

end Model

/-- For `z` inside the ball, the positive `τ` with which `z + τ·d` meets its boundary. -/
def boundaryTau (z d : Vector K n) (radius : K) : K :=
  let a := dot d d
  let b := 2.0 * dot z d
  let c := dot z z - radius * radius
  let discriminant := Scalar.max (b * b - 4.0 * a * c) 0.0
  (-b + Scalar.sqrt discriminant) / (2.0 * a)

/-- The point where the ray from `z` along `d` meets the boundary. -/
def toBoundary (z d : Vector K n) (radius : K) : Trial K n where
  p := z + boundaryTau z d radius * d
  onBoundary := true

end LocalOptimization.TrustRegion
