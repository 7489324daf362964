import LocalOptimization.Linear

/-!
# Central differences

Derivatives from function values on both sides of a point. Along every coordinate the function is
probed at `x + h·eᵢ` and then at `x - h·eᵢ`; all other coordinates are exactly those of `x`. The
first probe that fails ends the work.
-/

namespace LocalOptimization.Difference

variable {K : Type} [Arithmetic K] {n : Nat} {ε α : Type}

/-- The step for gradients and Jacobians. -/
def gradientStep : K :=
  1e-7

/-- The step for Hessians. It is larger, since the gradient that is probed may itself be a
difference. -/
def hessianStep : K :=
  1e-5

/-- The values of a function on both sides of a point. -/
structure Probe (α : Type) where
  /-- The value at `x + h·eᵢ`. -/
  forward : α
  /-- The value at `x - h·eᵢ`. -/
  backward : α

/-- The probe along coordinate `i`. -/
def probe (step : K) (f : Vector K n → Except ε α) (x : Vector K n) (i : Fin n) :
    Except ε (Probe α) := do
  let forward ← f (x.set i (x[i] + step))
  let backward ← f (x.set i (x[i] - step))
  return { forward, backward }

/-- The probes along all coordinates, in their order. -/
def probes (step : K) (f : Vector K n → Except ε α) (x : Vector K n) :
    Except ε (Vector (Probe α) n) :=
  Vector.ofFnM fun i => probe step f x i

/-- The difference quotient of two values at distance `2h`. -/
def quotient (step forward backward : K) : K :=
  (forward - backward) / (2.0 * step)

/-- The Jacobian with a given step: row `i` differentiates component `i`. -/
def jacobianWith (step : K) (f : Vector K n → Except ε (Vector K n)) (x : Vector K n) :
    Except ε (Matrix K n) := do
  let ps ← probes step f x
  return Vector.ofFn fun i => ps.map fun p => quotient step p.forward[i] p.backward[i]

/-- The gradient of a scalar function. -/
def gradient (f : Vector K n → Except ε K) (x : Vector K n) : Except ε (Vector K n) := do
  let ps ← probes gradientStep f x
  return ps.map fun p => quotient gradientStep p.forward p.backward

/-- The Jacobian of a vector function. -/
def jacobian (f : Vector K n → Except ε (Vector K n)) (x : Vector K n) : Except ε (Matrix K n) :=
  jacobianWith gradientStep f x

/-- The matrix with both off-diagonal entries of a pair replaced by their mean. -/
def symmetrize (m : Matrix K n) : Matrix K n :=
  Vector.ofFn fun i => Vector.ofFn fun j =>
    if i < j then 0.5 * (m[i][j] + m[j][i])
    else if j < i then 0.5 * (m[j][i] + m[i][j])
    else m[i][j]

/-- The Hessian of a function with gradient `g`. -/
def hessian (g : Vector K n → Except ε (Vector K n)) (x : Vector K n) : Except ε (Matrix K n) :=
  return symmetrize (← jacobianWith hessianStep g x)

end LocalOptimization.Difference
