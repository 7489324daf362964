import LocalOptimization.Constrained.Reduction

/-!
# The logarithmic barrier

The surrogate is `t·f - Σlog(-g)` with a parameter `t` that grows. It is defined where all
inequalities hold strictly, and all iterates stay there. With `m` inequalities the duality gap is
`m/t`.

The gradient of the surrogate grows with `t`, and the tolerance of the inner runs with it.
-/

namespace LocalOptimization.Constrained.Barrier

/-- The parameters of the barrier method. -/
structure Config (K : Type) [Scalar K] where
  /-- The parameters of the inner runs. Their gradient tolerance is scaled by `max(t, 1)`. -/
  inner : QuasiNewton.Config K := defaultInner
  /-- The first `t`. -/
  initialT : K := 1.0
  /-- The factor from one `t` to the next. -/
  growth : K := 10.0
  /-- Converged once the duality gap drops below this value. -/
  tolerance : K := 1e-6
  maxOuterIters : Nat := 50
  /-- The number of records to keep, `none` for all. -/
  historyLimit : Option Nat := none

variable {K : Type} [Scalar K] {n : Nat} {ε σ : Type}

/-- Checks the parameters. -/
def Config.validate (c : Config K) : Except ConfigError Unit := do
  checkSchedule c.initialT c.growth none
  checkTolerance c.tolerance
  checkOuterIters c.maxOuterIters
  c.inner.validate.mapError .inner

/-- The weighted objective with the barrier added. Outside the interior the objective is not
evaluated. -/
def surrogate (f : Objective K n ε) (c : ConstraintSet K n) (t : K) : Objective K n ε where
  value x := do
    if c.interior x then
      let barrier := Scalar.sum (c.inequalities.map fun g => Scalar.log (-g.value x))
      return t * (← f.value x) - barrier
    else
      return Scalar.infinity
  gradient x := do
    let objective ← f.gradient x
    return c.inequalities.foldl (fun v g => g.addGradient x (-1.0 / g.value x) v) (t * objective)
  domain x := c.interior x && f.domain x

/-- The multipliers `-1 / (t·g)` on the central path. -/
def multipliers (c : ConstraintSet K n) (t : K) (x : Vector K n) : Multipliers K where
  inequality := c.inequalities.map fun g => -1.0 / (t * g.value x)

/-- The duality gap `m/t`. -/
def dualityGap (c : ConstraintSet K n) (t : K) : K :=
  Scalar.ofNat c.inequalities.length / t

/-- The barrier method as a reduction. -/
def reduction (f : Objective K n ε) (c : ConstraintSet K n) (config : Config K) :
    Reduction K n ε where
  method := .logBarrier
  initialParameter := config.initialT
  nextParameter t := t * config.growth
  initialMultipliers := {}
  updateMultipliers t x _ := multipliers c t x
  surrogate t _ := surrogate f c t
  innerConfig t := { config.inner with gradientTol := config.inner.gradientTol * Scalar.max t 1.0 }
  measure t _ := .dualityGap (dualityGap c t)
  tolerance := config.tolerance

/-- Checks that there are no equalities and that `x` lies in the interior. -/
def checkStart (c : ConstraintSet K n) (x : Vector K n) : Except (Error K ε) Unit :=
  if !c.equalities.isEmpty then .error (.unsupportedConstraint .logBarrier .equality)
  else match c.firstNotStrictlyFeasible x with
    | some (index, value) => .error (.infeasibleStart index value)
    | none => .ok ()

/-- Minimizes `f` under the inequalities from `x`, under the eyes of an observer. -/
def minimize (f : Objective K n ε) (c : ConstraintSet K n) (x : Vector K n) (config : Config K)
    (o : Observer σ (Record K n)) (s : σ) : Except (Error K ε) (Solution K n) × σ :=
  match config.validate.mapError .invalidConfig >>= fun () => checkStart c x with
  | .error e => (.error e, s)
  | .ok () => (reduction f c config).minimize f x config.maxOuterIters config.historyLimit o s

/-- Minimizes `f` under the inequalities from `x`, without an observer. -/
def minimizeUnobserved (f : Objective K n ε) (c : ConstraintSet K n) (x : Vector K n)
    (config : Config K) : Except (Error K ε) (Solution K n) :=
  (minimize f c x config .silent ()).1

end LocalOptimization.Constrained.Barrier
