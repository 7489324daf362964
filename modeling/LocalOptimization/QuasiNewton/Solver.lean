import LocalOptimization.QuasiNewton.Basic

/-!
# Line-search descent

The direction of the curvature model is replaced by steepest descent where it does not descend.
The first trial step is `min(1, 1/‖g‖)` until the model has taken in a pair, and 1 afterwards. A
step that the search is not satisfied with is still taken if it lowers the objective; otherwise
the run gives up.
-/

namespace LocalOptimization.QuasiNewton

/-- The state of a run. -/
structure State (K : Type) (n : Nat) where
  current : Evaluation K n
  /-- The curvature model. -/
  model : Curvature K n
  /-- The model has taken in a pair. -/
  scaled : Bool

variable {K : Type} [Scalar K] {n : Nat} {ε σ : Type}

namespace State

/-- The direction of the model, or steepest descent where that does not descend. -/
def direction (s : State K n) : Vector K n :=
  let g := s.current.gradient
  let d := s.model.direction g
  if dot g d < 0.0 then d else -g

/-- The first step length to try. -/
def initialStep (s : State K n) : K :=
  if s.scaled then 1.0 else Scalar.min (1.0 / s.current.gradientNorm) 1.0

/-- The ray to search along. -/
def ray (s : State K n) : LineSearch.Ray K n where
  x := s.current.x
  value := s.current.value
  gradient := s.current.gradient
  direction := s.direction

/-- The report on the state after an iteration. -/
def event (s : State K n) (iteration : Nat) (stepLength : K) (stale : Bool) : Event K n where
  record := {
    iteration
    x := s.current.x
    objective := s.current.value
    gradientNorm := s.current.gradientNorm
    stepLength
    stale }
  gradient := s.current.gradient

/-- The state at a new iterate, whose pair is offered to the model, and the report on it. -/
def moveTo (s : State K n) (iteration : Nat) (alpha : K) (next : Evaluation K n) :
    State K n × Event K n :=
  match s.model.update? (next.x - s.current.x) (next.gradient - s.current.gradient) with
  | some model =>
      let t : State K n := { current := next, model, scaled := true }
      (t, t.event iteration alpha false)
  | none =>
      let t : State K n := { s with current := next }
      (t, t.event iteration alpha true)

/-- One iteration. -/
def advance (f : Objective K n ε) (c : Config K) (iteration : Nat) (s : State K n) :
    Except ε (Option (State K n × Event K n)) := do
  let ray := s.ray
  let step ← c.lineSearch.search f ray s.initialStep
  if step.satisfied || step.decreases ray.value then
    let x := ray.point step.alpha
    let gradient ← match step.gradient with
      | some gradient => pure gradient
      | none => f.gradient x
    return some (s.moveTo iteration step.alpha { x, value := step.value, gradient })
  else
    return none

end State

/-- The state at the start, if everything is finite there. -/
def start (f : Objective K n ε) (c : Config K) (x : Vector K n) : Except (Error ε) (State K n) := do
  c.validate.mapError .invalidConfig
  if !allFinite x then throw .nonFiniteStart
  let current ← (f.evaluate x).mapError .objective
  if !(f.domain x && current.isFinite) then throw .nonFiniteStart
  return { current, model := c.method.initial, scaled := false }

/-- The iteration of line-search descent. -/
def iteration (f : Objective K n ε) (c : Config K) :
    Iteration (State K n) (Event K n) (Record K n) (Error ε) where
  converged s := decide (s.current.gradientNorm < c.gradientTol)
  advance i s := (s.advance f c i).mapError .objective
  record := Event.record
  convergenceFirst := false

/-- The result of a run that has ended. -/
def solution (c : Config K) (e : Ending (State K n) (Record K n)) : Solution K n where
  status := e.status
  final := e.state.current
  iterations := e.iterations
  history := e.history
  method := c.method.method

/-- Minimizes `f` from `x` under the eyes of an observer. The start is reported as iteration 0. -/
def minimize (f : Objective K n ε) (x : Vector K n) (c : Config K)
    (o : Observer σ (Event K n)) (s : σ) : Except (Error ε) (Solution K n) × σ :=
  match start f c x with
  | .error e => (.error e, s)
  | .ok state =>
      let (ending, s) :=
        (iteration f c).runFrom o c.maxIters c.historyLimit state (state.event 0 0.0 false) s
      (ending.map (solution c), s)

/-- Minimizes `f` from `x` without an observer. -/
def minimizeUnobserved (f : Objective K n ε) (x : Vector K n) (c : Config K) :
    Except (Error ε) (Solution K n) :=
  (minimize f x c .silent ()).1

end LocalOptimization.QuasiNewton
