import LocalOptimization.Constrained.Reduction

/-!
# The augmented Lagrangian

The surrogate is `f + Σ[λ·h + ½ρ·h²] + (1/2ρ)·Σ[max(0, μ + ρ·g)² - μ²]`. After each inner run the
multipliers become `λ + ρ·h` and `max(0, μ + ρ·g)`, and `ρ` grows. Since the multipliers take over
the force of the constraints, a moderate `ρ` suffices.
-/

namespace LocalOptimization.Constrained.AugmentedLagrangian

/-- The parameters of the augmented Lagrangian method. -/
structure Config (K : Type) [Scalar K] where
  /-- The parameters of the inner runs. -/
  inner : QuasiNewton.Config K := defaultInner
  /-- The first `ρ`. -/
  initialRho : K := 1.0
  /-- The factor from one `ρ` to the next. -/
  growth : K := 10.0
  /-- The parameter `ρ` grows no further than this. -/
  maxRho : K := 1e8
  /-- Converged once the largest violation drops below this value. -/
  tolerance : K := 1e-6
  maxOuterIters : Nat := 50
  /-- The number of records to keep, `none` for all. -/
  historyLimit : Option Nat := none

variable {K : Type} [Scalar K] {n : Nat} {ε σ : Type}

/-- Checks the parameters. -/
def Config.validate (c : Config K) : Except ConfigError Unit := do
  checkSchedule c.initialRho c.growth (some c.maxRho)
  checkTolerance c.tolerance
  checkOuterIters c.maxOuterIters
  c.inner.validate.mapError .inner

/-- The next multiplier of an equality, `λ + ρ·h(x)`. -/
def shiftedEquality (rho : K) (x : Vector K n) (h : Constraint K n) (lambda : K) : K :=
  lambda + rho * h.value x

/-- The next multiplier of an inequality, `max(0, μ + ρ·g(x))`. -/
def shiftedInequality (rho : K) (x : Vector K n) (g : Constraint K n) (mu : K) : K :=
  Scalar.max (mu + rho * g.value x) 0.0

/-- The term of an equality. -/
def equalityTerm (rho : K) (x : Vector K n) (h : Constraint K n) (lambda : K) : K :=
  lambda * h.value x + 0.5 * rho * h.value x * h.value x

/-- The term of an inequality. -/
def inequalityTerm (rho : K) (x : Vector K n) (g : Constraint K n) (mu : K) : K :=
  let shifted := shiftedInequality rho x g mu
  (shifted * shifted - mu * mu) / (2.0 * rho)

/-- The objective with the terms of all constraints added. -/
def surrogate (f : Objective K n ε) (c : ConstraintSet K n) (rho : K) (m : Multipliers K) :
    Objective K n ε where
  value x := do
    let equality := Scalar.sum (c.equalities.zipWith (equalityTerm rho x) m.equality)
    let inequality := Scalar.sum (c.inequalities.zipWith (inequalityTerm rho x) m.inequality)
    return (← f.value x) + equality + inequality
  gradient x := do
    let objective ← f.gradient x
    let equality := (c.equalities.zip m.equality).foldl
      (fun v (h, lambda) => h.addGradient x (shiftedEquality rho x h lambda) v) objective
    return (c.inequalities.zip m.inequality).foldl
      (fun v (g, mu) =>
        let shifted := shiftedInequality rho x g mu
        if 0.0 < shifted then g.addGradient x shifted v else v) equality
  domain := f.domain

/-- The multipliers at the start, all zero. -/
def initialMultipliers (c : ConstraintSet K n) : Multipliers K where
  equality := c.equalities.map fun _ => 0.0
  inequality := c.inequalities.map fun _ => 0.0

/-- The multipliers after an inner run that ended at `x`. -/
def updateMultipliers (c : ConstraintSet K n) (rho : K) (x : Vector K n) (m : Multipliers K) :
    Multipliers K where
  equality := c.equalities.zipWith (shiftedEquality rho x) m.equality
  inequality := c.inequalities.zipWith (shiftedInequality rho x) m.inequality

/-- The augmented Lagrangian method as a reduction. -/
def reduction (f : Objective K n ε) (c : ConstraintSet K n) (config : Config K) :
    Reduction K n ε where
  method := .augmentedLagrangian
  initialParameter := config.initialRho
  nextParameter rho := Scalar.min (rho * config.growth) config.maxRho
  initialMultipliers := initialMultipliers c
  updateMultipliers := updateMultipliers c
  surrogate := surrogate f c
  innerConfig _ := config.inner
  measure _ x := .violation (c.maxViolation x)
  tolerance := config.tolerance

/-- Minimizes `f` under the constraints from `x`, under the eyes of an observer. -/
def minimize (f : Objective K n ε) (c : ConstraintSet K n) (x : Vector K n) (config : Config K)
    (o : Observer σ (Record K n)) (s : σ) : Except (Error K ε) (Solution K n) × σ :=
  match config.validate with
  | .error e => (.error (.invalidConfig e), s)
  | .ok () => (reduction f c config).minimize f x config.maxOuterIters config.historyLimit o s

/-- Minimizes `f` under the constraints from `x`, without an observer. -/
def minimizeUnobserved (f : Objective K n ε) (c : ConstraintSet K n) (x : Vector K n)
    (config : Config K) : Except (Error K ε) (Solution K n) :=
  (minimize f c x config .silent ()).1

end LocalOptimization.Constrained.AugmentedLagrangian
