import LocalOptimization.Box
import LocalOptimization.Constrained.Basic

/-!
# Projected gradients

Each iteration steps against the gradient and projects onto the box, `x ← P(x - α·∇f)`. The step
length is found by backtracking along the projection arc until `f(x⁺) ≤ f(x) + c1·∇fᵗ(x⁺ - x)`.
The residual `‖x - P(x - ∇f)‖` measures convergence.
-/

namespace LocalOptimization.Constrained.ProjectedGradient

/-- The parameters of the projected gradient method. -/
structure Config (K : Type) [Scalar K] where
  /-- The first step length tried in every iteration. -/
  initialStep : K := 1.0
  /-- The sufficient-decrease constant. -/
  c1 : K := 1e-4
  /-- The factor from one trial to the next. -/
  shrink : K := 0.5
  /-- The number of trials in an iteration. -/
  maxBacktracks : Nat := 50
  /-- Converged once the residual drops below this value. -/
  tolerance : K := 1e-6
  maxIters : Nat := 1000
  /-- The number of records to keep, `none` for all. -/
  historyLimit : Option Nat := none

/-- The state of a run. -/
structure State (K : Type) (n : Nat) where
  current : Evaluation K n
  /-- The record of the last iteration, or of the start. -/
  last : Record K n

variable {K : Type} [Scalar K] {n : Nat} {ε σ : Type}

/-- Checks the parameters. -/
def Config.validate (c : Config K) : Except ConfigError Unit := do
  if !(Scalar.isPositive c.initialStep && Scalar.inOpenUnit c.c1 && Scalar.inOpenUnit c.shrink
      && c.maxBacktracks != 0) then
    throw .step
  checkTolerance c.tolerance
  checkOuterIters c.maxIters

/-- The residual `‖x - P(x - ∇f)‖`. -/
def residual (b : Box K n) (e : Evaluation K n) : K :=
  norm (e.x - b.project (e.x - e.gradient))

/-- A point on the arc decreases the objective sufficiently. -/
def accepts (c : Config K) (f : Objective K n ε) (current : Evaluation K n) (x : Vector K n)
    (value : K) : Bool :=
  let decrease := dot current.gradient (x - current.x)
  f.isFiniteAt x value && decide (decrease < 0.0)
    && decide (value ≤ current.value + c.c1 * decrease)

/-- Backtracks along the arc from step length `alpha` with at most `budget` trials. -/
def arcSearch (c : Config K) (f : Objective K n ε) (b : Box K n) (current : Evaluation K n) :
    Nat → K → Except ε (Option (K × Evaluation K n))
  | 0, _ => return none
  | budget + 1, alpha => do
    let x := b.project (current.x - alpha * current.gradient)
    let value ← f.value x
    if accepts c f current x value then
      let gradient ← f.gradient x
      return some (alpha, { x, value, gradient })
    else
      arcSearch c f b current budget (alpha * c.shrink)

/-- The state at an iterate that was reached with step length `alpha`. -/
def State.reached (b : Box K n) (iteration : Nat) (alpha : K) (current : Evaluation K n) :
    State K n where
  current
  last := {
    iteration
    x := current.x
    objective := current.value
    measure := .projectedGradient (residual b current)
    parameter := alpha
    innerIterations := 0
    innerStatus := none }

/-- The state at the projected start, if everything is finite there. -/
def start (f : Objective K n ε) (b : Box K n) (x : Vector K n) (c : Config K) :
    Except (Error K ε) (State K n) := do
  c.validate.mapError .invalidConfig
  if !allFinite x then throw .nonFiniteStart
  let current ← (f.evaluate (b.project x)).mapError .objective
  if !(f.domain current.x && current.isFinite) then throw .nonFiniteStart
  return .reached b 0 0.0 current

/-- The iteration of the projected gradient method. -/
def iteration (f : Objective K n ε) (b : Box K n) (c : Config K) :
    Iteration (State K n) (Record K n) (Record K n) (Error K ε) where
  converged s := decide (s.last.measure.value < c.tolerance)
  advance i s := do
    let found ← (arcSearch c f b s.current c.maxBacktracks c.initialStep).mapError .objective
    return found.map fun (alpha, next) =>
      let t : State K n := .reached b i alpha next
      (t, t.last)
  record := id
  convergenceFirst := true

/-- The result of a run that has ended. A box has no multipliers. -/
def solution (e : Ending (State K n) (Record K n)) : Solution K n where
  status := e.status
  last := e.state.last
  multipliers := {}
  history := e.history
  method := .projectedGradient

/-- Minimizes `f` over a box from the projection of `x`, under the eyes of an observer. -/
def minimize (f : Objective K n ε) (b : Box K n) (x : Vector K n) (c : Config K)
    (o : Observer σ (Record K n)) (s : σ) : Except (Error K ε) (Solution K n) × σ :=
  match start f b x c with
  | .error e => (.error e, s)
  | .ok state =>
      let (ending, s) := (iteration f b c).run o c.maxIters c.historyLimit state s
      (ending.map solution, s)

/-- Minimizes `f` over a box from the projection of `x`, without an observer. -/
def minimizeUnobserved (f : Objective K n ε) (b : Box K n) (x : Vector K n) (c : Config K) :
    Except (Error K ε) (Solution K n) :=
  (minimize f b x c .silent ()).1

end LocalOptimization.Constrained.ProjectedGradient
