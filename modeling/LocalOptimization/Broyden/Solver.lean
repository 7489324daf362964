import LocalOptimization.Broyden.Basic
import LocalOptimization.Difference

/-!
# Broyden's method

The Jacobian is differenced at the start and then follows the steps by secant updates. Each
iteration solves for a step and backtracks along it until the residual norm has decreased
sufficiently. Where that fails with a Jacobian of secant updates, the Jacobian is differenced
afresh and the step is tried once more; where it fails with a fresh one, the run gives up.
-/

namespace LocalOptimization.Broyden

/-- The state of a run. -/
structure State (K : Type) (n : Nat) where
  current : Iterate K n
  model : Secant K n
  /-- The Jacobian was differenced at the iterate. -/
  fresh : Bool

/-- A step that was accepted. -/
structure Accepted (K : Type) (n : Nat) where
  alpha : K
  next : Iterate K n
  /-- The Jacobian that gave the step. -/
  model : Secant K n
  /-- That Jacobian was differenced afresh in this iteration. -/
  refreshed : Bool

variable {K : Type} [Scalar K] {n : Nat} {ε σ : Type}

/-- Evaluates the residuals at a point. -/
def evaluate (f : System K n ε) (x : Vector K n) : Except ε (Iterate K n) := do
  let residuals ← f x
  return { x, residuals }

/-- The Jacobian at a point, by central differences. -/
def differenced (f : System K n ε) (x : Vector K n) : Except ε (Secant K n) := do
  return { jacobian := ← Difference.jacobian f x }

/-- The residual norm decreases sufficiently at step length `alpha`. -/
def decreases (c : Config K) (current trial : Iterate K n) (alpha : K) : Bool :=
  Scalar.isFinite trial.residualNorm
    && decide (trial.residualNorm ≤ (1.0 - c.sufficientDecrease * alpha) * current.residualNorm)

/-- Backtracks along `d` from step length `alpha` with at most `budget` trials. -/
def backtrack (f : System K n ε) (c : Config K) (current : Iterate K n) (d : Vector K n) :
    Nat → K → Except ε (Option (K × Iterate K n))
  | 0, _ => return none
  | budget + 1, alpha => do
    let trial ← evaluate f (current.x + alpha * d)
    if decreases c current trial alpha then
      return some (alpha, trial)
    else
      backtrack f c current d budget (alpha * c.shrink)

/-- Solves for the step of a Jacobian and backtracks along it. A Jacobian that is singular, or whose
step is not finite, gives none. -/
def attempt (f : System K n ε) (c : Config K) (current : Iterate K n) (model : Secant K n) :
    Except ε (Option (K × Iterate K n)) :=
  let step := model.step current.residuals
  if step.isRegular && allFinite step.x then
    backtrack f c current step.x c.maxBacktracks 1.0
  else
    return none

namespace State

/-- Looks for a step, first with the Jacobian at hand, then with a fresh one if that at hand is
not. -/
def findStep (s : State K n) (f : System K n ε) (c : Config K) :
    Except ε (Option (Accepted K n)) := do
  match ← attempt f c s.current s.model with
  | some (alpha, next) => return some { alpha, next, model := s.model, refreshed := false }
  | none =>
      if s.fresh then
        return none
      else
        let model ← differenced f s.current.x
        let found ← attempt f c s.current model
        return found.map fun (alpha, next) => { alpha, next, model, refreshed := true }

/-- The report on the state after an iteration. -/
def event (s : State K n) (iteration : Nat) (stepLength : K) (refreshed : Bool) : Event K n where
  record := {
    iteration
    x := s.current.x
    residualNorm := s.current.residualNorm
    stepLength
    refreshed }
  residuals := s.current.residuals

/-- The state after an accepted step, which the Jacobian takes in. -/
def moveTo (s : State K n) (a : Accepted K n) : State K n where
  current := a.next
  model := (a.model.update? (a.next.x - s.current.x)
    (a.next.residuals - s.current.residuals)).getD a.model
  fresh := false

/-- One iteration. -/
def advance (f : System K n ε) (c : Config K) (iteration : Nat) (s : State K n) :
    Except ε (Option (State K n × Event K n)) := do
  let found ← s.findStep f c
  return found.map fun a =>
    let t := s.moveTo a
    (t, t.event iteration a.alpha a.refreshed)

end State

/-- The state at the start, if everything is finite there. -/
def start (f : System K n ε) (c : Config K) (x : Vector K n) : Except (Error ε) (State K n) := do
  c.validate.mapError .invalidConfig
  if !allFinite x then throw .nonFiniteStart
  let current ← (evaluate f x).mapError .system
  if !Scalar.isFinite current.residualNorm then throw .nonFiniteStart
  let model ← (differenced f x).mapError .system
  return { current, model, fresh := true }

/-- The iteration of Broyden's method. -/
def iteration (f : System K n ε) (c : Config K) :
    Iteration (State K n) (Event K n) (Record K n) (Error ε) where
  converged s := decide (s.current.residualNorm < c.residualTol)
  advance i s := (s.advance f c i).mapError .system
  record := Event.record
  convergenceFirst := false

/-- The result of a run that has ended. -/
def solution (e : Ending (State K n) (Record K n)) : Solution K n where
  status := e.status
  final := e.state.current
  iterations := e.iterations
  history := e.history
  method := .broyden

/-- Solves `F(x) = 0` from `x` under the eyes of an observer. The start is reported as iteration
0. -/
def solve (f : System K n ε) (x : Vector K n) (c : Config K) (o : Observer σ (Event K n)) (s : σ) :
    Except (Error ε) (Solution K n) × σ :=
  match start f c x with
  | .error e => (.error e, s)
  | .ok state =>
      let (ending, s) :=
        (iteration f c).runFrom o c.maxIters c.historyLimit state (state.event 0 0.0 true) s
      (ending.map solution, s)

/-- Solves `F(x) = 0` from `x` without an observer. -/
def solveUnobserved (f : System K n ε) (x : Vector K n) (c : Config K) :
    Except (Error ε) (Solution K n) :=
  (solve f x c .silent ()).1

end LocalOptimization.Broyden
