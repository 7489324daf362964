import LocalOptimization.Curvature.SymmetricRankOne
import LocalOptimization.TrustRegion.Basic

/-!
# Trust regions

The ratio of the actual to the predicted reduction steers a run: below a quarter the radius
shrinks to a quarter, above three quarters on the boundary it doubles, and above a threshold the
step is accepted. A predicted reduction that is not positive counts as ratio 0, a trial without a
finite value as minus infinity. The run gives up once the radius is too small.
-/

namespace LocalOptimization.TrustRegion

variable {K : Type} [Scalar K] {n : Nat} {ε σ : Type}

/-- Where the Hessian of the model comes from if the objective provides none. -/
inductive HessianSource (K : Type) (n : Nat) where
  /-- Central differences of the gradient. -/
  | finiteDifference
  /-- A rank-one model of the accepted steps. -/
  | sr1 (model : SymmetricRankOne K n)

namespace HessianSource

/-- The source before any step. -/
def ofChoice : HessianChoice → HessianSource K n
  | .finiteDifference => finiteDifference
  | .sr1 => sr1 .initial

/-- The Hessian of the model at `x`. That of the objective takes precedence. -/
def hessian (h : HessianSource K n) (f : Objective K n ε) (x : Vector K n) :
    Except ε (Matrix K n) := do
  match ← f.hessian x with
  | some m => return m
  | none =>
      match h with
      | finiteDifference => Difference.hessian f.gradient x
      | sr1 model => return model.hessian

/-- The source after an accepted step, unless its pair is skipped. -/
def update? (h : HessianSource K n) (s y : Vector K n) : Option (HessianSource K n) :=
  match h with
  | finiteDifference => some finiteDifference
  | sr1 model => (model.update? s y).map sr1

end HessianSource

/-- The state of a run. -/
structure State (K : Type) (n : Nat) where
  current : Evaluation K n
  /-- The Hessian of the model. -/
  hessian : Matrix K n
  /-- The source of further Hessians. -/
  source : HessianSource K n
  radius : K

/-- What is known of a step that was tried. -/
structure Outcome (K : Type) (n : Nat) where
  trial : Trial K n
  /-- The objective at its end. -/
  value : K
  actual : K
  /-- The reduction that the model predicted. -/
  predicted : K
  /-- The ratio that steers the run. -/
  ratio : K

/-- The ratio below which the radius shrinks, and the factor by which it does. -/
def shrinkBelow : K :=
  0.25

/-- The ratio above which a step on the boundary makes the radius grow. -/
def growAbove : K :=
  0.75

/-- The ratio of the actual to the predicted reduction. -/
def reductionRatio (finite : Bool) (actual predicted : K) : K :=
  if !finite then -Scalar.infinity
  else if predicted ≤ 0.0 then 0.0
  else actual / predicted

/-- The radius after a step. -/
def nextRadius (maxRadius radius ratio : K) (onBoundary : Bool) : K :=
  if ratio < shrinkBelow then radius * shrinkBelow
  else if decide (growAbove < ratio) && onBoundary then Scalar.min (2.0 * radius) maxRadius
  else radius

namespace State

/-- The quadratic model at the iterate. -/
def model (s : State K n) : Model K n where
  gradient := s.current.gradient
  hessian := s.hessian

/-- Tries the step that the minimizer of the model proposes. -/
def tryStep (s : State K n) (f : Objective K n ε) (c : Config K) : Except ε (Outcome K n) := do
  let trial := c.subproblem.solve s.model s.radius
  let predicted := s.model.predictedReduction trial.p
  let x := s.current.x + trial.p
  let value ← f.value x
  let actual := s.current.value - value
  let ratio := reductionRatio (f.isFiniteAt x value) actual predicted
  return { trial, value, actual, predicted, ratio }

/-- The state at the end of an accepted step, and whether its pair was skipped. -/
def accept (s : State K n) (f : Objective K n ε) (o : Outcome K n) :
    Except ε (State K n × Bool) := do
  let x := s.current.x + o.trial.p
  let gradient ← f.gradient x
  let updated := s.source.update? o.trial.p (gradient - s.current.gradient)
  let source := updated.getD s.source
  let hessian ← source.hessian f x
  return ({ s with current := { x, value := o.value, gradient }, hessian, source }, updated.isNone)

/-- The report on the state after a step. -/
def event (s : State K n) (iteration : Nat) (o : Outcome K n) (accepted stale : Bool) :
    Event K n where
  record := {
    iteration
    x := s.current.x
    objective := s.current.value
    gradientNorm := s.current.gradientNorm
    radius := s.radius
    ratio := o.ratio
    stepNorm := norm o.trial.p
    accepted
    stale }
  gradient := s.current.gradient
  actualReduction := o.actual
  predictedReduction := o.predicted

/-- The report on the start. -/
def startEvent (s : State K n) : Event K n where
  record := {
    iteration := 0
    x := s.current.x
    objective := s.current.value
    gradientNorm := s.current.gradientNorm
    radius := s.radius
    ratio := 0.0
    stepNorm := 0.0
    accepted := false
    stale := false }
  gradient := s.current.gradient
  actualReduction := 0.0
  predictedReduction := 0.0

/-- One iteration. -/
def advance (f : Objective K n ε) (c : Config K) (iteration : Nat) (s : State K n) :
    Except ε (Option (State K n × Event K n)) := do
  if s.radius < c.minRadius then
    return none
  else
    let o ← s.tryStep f c
    let resized := { s with radius := nextRadius c.maxRadius s.radius o.ratio o.trial.onBoundary }
    if c.eta < o.ratio then
      let (t, stale) ← resized.accept f o
      return some (t, t.event iteration o true stale)
    else
      return some (resized, resized.event iteration o false false)

end State

/-- The state at the start, if everything is finite there. -/
def start (f : Objective K n ε) (c : Config K) (x : Vector K n) : Except (Error ε) (State K n) := do
  c.validate.mapError .invalidConfig
  if !allFinite x then throw .nonFiniteStart
  let current ← (f.evaluate x).mapError .objective
  let source : HessianSource K n := .ofChoice c.hessian
  let hessian ← (source.hessian f x).mapError .objective
  if !(f.domain x && current.isFinite && hessian.all allFinite) then throw .nonFiniteStart
  return { current, hessian, source, radius := c.initialRadius }

/-- The iteration of a trust-region run. -/
def iteration (f : Objective K n ε) (c : Config K) :
    Iteration (State K n) (Event K n) (Record K n) (Error ε) where
  converged s := decide (s.current.gradientNorm < c.gradientTol)
  advance i s := (s.advance f c i).mapError .objective
  record := Event.record
  convergenceFirst := false

/-- The result of a run that has ended. -/
def solution (c : Config K) (e : Ending (State K n) (Record K n)) : Solution K n where
  status := e.status
  final := e.state.current
  radius := e.state.radius
  iterations := e.iterations
  history := e.history
  method := c.subproblem.method

/-- Minimizes `f` from `x` under the eyes of an observer. The start is reported as iteration 0. -/
def minimize (f : Objective K n ε) (x : Vector K n) (c : Config K)
    (o : Observer σ (Event K n)) (s : σ) : Except (Error ε) (Solution K n) × σ :=
  match start f c x with
  | .error e => (.error e, s)
  | .ok state =>
      let (ending, s) :=
        (iteration f c).runFrom o c.maxIters c.historyLimit state state.startEvent s
      (ending.map (solution c), s)

/-- Minimizes `f` from `x` without an observer. -/
def minimizeUnobserved (f : Objective K n ε) (x : Vector K n) (c : Config K) :
    Except (Error ε) (Solution K n) :=
  (minimize f x c .silent ()).1

end LocalOptimization.TrustRegion
