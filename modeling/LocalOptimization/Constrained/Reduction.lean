import LocalOptimization.Constrained.Basic
import LocalOptimization.QuasiNewton.Solver

/-!
# Reduction to unconstrained problems

A reduction folds the constraints into a surrogate objective with a parameter. Every outer
iteration minimizes the surrogate from the last iterate, estimates multipliers and changes the
parameter. An inner run that stops short of its tolerance is recorded and does not end the outer
one.
-/

namespace LocalOptimization.Constrained

/-- The inner parameters by default: limited-memory BFGS with a tight tolerance. -/
def defaultInner {K : Type} [Scalar K] : QuasiNewton.Config K :=
  { gradientTol := 1e-8 }

/-- A way to reduce a constrained problem to unconstrained ones. -/
structure Reduction (K : Type) [Scalar K] (n : Nat) (ε : Type) where
  method : Method
  /-- The parameter of the first outer iteration. -/
  initialParameter : K
  /-- The parameter of the next outer iteration. -/
  nextParameter : K → K
  /-- The multipliers before the first outer iteration. -/
  initialMultipliers : Multipliers K
  /-- The multipliers from the parameter, the new iterate and the former multipliers. -/
  updateMultipliers : K → Vector K n → Multipliers K → Multipliers K
  /-- The objective of the inner run. -/
  surrogate : K → Multipliers K → Objective K n ε
  /-- The parameters of the inner run. -/
  innerConfig : K → QuasiNewton.Config K
  /-- The measure of convergence at a parameter and an iterate. -/
  measure : K → Vector K n → Measure K
  /-- Converged once the measure drops below this value. -/
  tolerance : K

/-- The state of a run. -/
structure Reduction.State (K : Type) (n : Nat) where
  /-- The record of the last outer iteration, or of the start. -/
  last : Record K n
  /-- The parameter of the next outer iteration. -/
  parameter : K
  multipliers : Multipliers K

namespace Reduction

variable {K : Type} [Scalar K] {n : Nat} {ε σ : Type}

/-- The state at the start, if the objective is finite there. -/
def start (r : Reduction K n ε) (f : Objective K n ε) (x : Vector K n) :
    Except (Error K ε) (State K n) := do
  if !allFinite x then throw .nonFiniteStart
  let objective ← (f.value x).mapError .objective
  if !f.isFiniteAt x objective then throw .nonFiniteStart
  return {
    last := {
      iteration := 0
      x
      objective
      measure := r.measure r.initialParameter x
      parameter := r.initialParameter
      innerIterations := 0
      innerStatus := none }
    parameter := r.initialParameter
    multipliers := r.initialMultipliers }

/-- One outer iteration. -/
def advance (r : Reduction K n ε) (f : Objective K n ε) (iteration : Nat) (s : State K n) :
    Except (Error K ε) (Option (State K n × Record K n)) := do
  let surrogate := r.surrogate s.parameter s.multipliers
  let inner ← (QuasiNewton.minimizeUnobserved surrogate s.last.x
    (r.innerConfig s.parameter)).mapError .inner
  let x := inner.final.x
  let objective ← (f.value x).mapError .objective
  let record : Record K n := {
    iteration
    x
    objective
    measure := r.measure s.parameter x
    parameter := s.parameter
    innerIterations := inner.iterations
    innerStatus := some inner.status }
  return some (
    { last := record
      parameter := r.nextParameter s.parameter
      multipliers := r.updateMultipliers s.parameter x s.multipliers },
    record)

/-- The iteration of a reduction. The start never counts as converged. -/
def iteration (r : Reduction K n ε) (f : Objective K n ε) :
    Iteration (State K n) (Record K n) (Record K n) (Error K ε) where
  converged s := decide (0 < s.last.iteration) && decide (s.last.measure.value < r.tolerance)
  advance := r.advance f
  record := id
  convergenceFirst := true

/-- The result of a run that has ended. -/
def solution (r : Reduction K n ε) (e : Ending (State K n) (Record K n)) : Solution K n where
  status := e.status
  last := e.state.last
  multipliers := e.state.multipliers
  history := e.history
  method := r.method

/-- Runs at most `maxOuterIters` outer iterations from `x`, each of which is reported to the
observer. -/
def minimize (r : Reduction K n ε) (f : Objective K n ε) (x : Vector K n) (maxOuterIters : Nat)
    (historyLimit : Option Nat) (o : Observer σ (Record K n)) (s : σ) :
    Except (Error K ε) (Solution K n) × σ :=
  match r.start f x with
  | .error e => (.error e, s)
  | .ok state =>
      let (ending, s) := (r.iteration f).run o maxOuterIters historyLimit state s
      (ending.map r.solution, s)

end Reduction

end LocalOptimization.Constrained
