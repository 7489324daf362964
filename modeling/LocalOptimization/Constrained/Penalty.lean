import LocalOptimization.Constrained.Reduction

/-!
# The quadratic penalty

The surrogate is `f + μ·Σh² + μ·Σmax(0, g)²` with a weight `μ` that grows. Its minimizers approach
the feasible set from outside.
-/

namespace LocalOptimization.Constrained.Penalty

/-- The parameters of the penalty method. -/
structure Config (K : Type) [Scalar K] where
  /-- The parameters of the inner runs. -/
  inner : QuasiNewton.Config K := defaultInner
  /-- The first weight. -/
  initialPenalty : K := 1.0
  /-- The factor from one weight to the next. -/
  growth : K := 10.0
  /-- The weight grows no further than this. -/
  maxPenalty : K := 1e8
  /-- Converged once the largest violation drops below this value. -/
  tolerance : K := 1e-6
  maxOuterIters : Nat := 20
  /-- The number of records to keep, `none` for all. -/
  historyLimit : Option Nat := none

variable {K : Type} [Scalar K] {n : Nat} {ε σ : Type}

/-- Checks the parameters. -/
def Config.validate (c : Config K) : Except ConfigError Unit := do
  checkSchedule c.initialPenalty c.growth (some c.maxPenalty)
  checkTolerance c.tolerance
  checkOuterIters c.maxOuterIters
  c.inner.validate.mapError .inner

/-- The part of an inequality that counts, `max(0, g(x))`. -/
def excess (g : Constraint K n) (x : Vector K n) : K :=
  Scalar.max (g.value x) 0.0

/-- The objective with the squared violations added. -/
def surrogate (f : Objective K n ε) (c : ConstraintSet K n) (weight : K) : Objective K n ε where
  value x := do
    let equality := Scalar.sum (c.equalities.map fun h => h.value x * h.value x)
    let inequality := Scalar.sum (c.inequalities.map fun g => excess g x * excess g x)
    return (← f.value x) + weight * (equality + inequality)
  gradient x := do
    let objective ← f.gradient x
    let equality := c.equalities.foldl
      (fun v h => h.addGradient x (2.0 * weight * h.value x) v) objective
    return c.inequalities.foldl
      (fun v g => if 0.0 < excess g x then g.addGradient x (2.0 * weight * excess g x) v else v)
      equality
  domain := f.domain

/-- The multipliers `2μ·h` and `2μ·max(0, g)`. -/
def multipliers (c : ConstraintSet K n) (weight : K) (x : Vector K n) : Multipliers K where
  equality := c.equalities.map fun h => 2.0 * weight * h.value x
  inequality := c.inequalities.map fun g => 2.0 * weight * excess g x

/-- The penalty method as a reduction. -/
def reduction (f : Objective K n ε) (c : ConstraintSet K n) (config : Config K) :
    Reduction K n ε where
  method := .quadraticPenalty
  initialParameter := config.initialPenalty
  nextParameter weight := Scalar.min (weight * config.growth) config.maxPenalty
  initialMultipliers := {}
  updateMultipliers weight x _ := multipliers c weight x
  surrogate weight _ := surrogate f c weight
  innerConfig _ := config.inner
  measure _ x := .violation (c.maxViolation x)
  tolerance := config.tolerance

/-- Minimizes `f` under the constraints from `x`, under the eyes of an observer. -/
def minimize (f : Objective K n ε) (c : ConstraintSet K n) (x : Vector K n) (config : Config K)
    (o : Observer σ (Record K n)) (s : σ) : Except (Error K ε) (Solution K n) × σ :=
  match config.validate with
  | .error e => (.error (.invalidConfig e), s)
  | .ok () => (reduction f c config).minimize f x config.maxOuterIters config.historyLimit o s

/-- Minimizes `f` under the constraints from `x`, without an observer. -/
def minimizeUnobserved (f : Objective K n ε) (c : ConstraintSet K n) (x : Vector K n)
    (config : Config K) : Except (Error K ε) (Solution K n) :=
  (minimize f c x config .silent ()).1

end LocalOptimization.Constrained.Penalty
