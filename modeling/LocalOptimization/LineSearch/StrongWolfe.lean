import LocalOptimization.LineSearch.Basic

/-!
# The strong Wolfe conditions

The search keeps a bracket around acceptable steps, at first unbounded. A step without sufficient
decrease is too long; one with sufficient decrease is too short where the objective still falls
steeply, and too long where it rises steeply. The next trial is the middle of the bracket, or
twice the step while the bracket is unbounded.

Sufficient decrease is granted a slack of two units in the last place of `f(x)`: near a minimizer
the predicted decrease falls below the resolution of the objective, and the curvature condition
alone decides.
-/

namespace LocalOptimization.LineSearch

/-- The parameters of a strong Wolfe search. -/
structure StrongWolfe (K : Type) [Scalar K] where
  /-- The sufficient-decrease constant. -/
  c1 : K := 1e-4
  /-- The curvature constant. -/
  c2 : K := 0.9
  /-- The number of trials. -/
  maxIters : Nat := 50

namespace StrongWolfe

/-- Where the search looks next. -/
structure Bracket (K : Type) where
  /-- A step that is too short. -/
  lo : K
  /-- A step that is too long, if one is known. -/
  hi : Option K
  /-- The next step to try. -/
  alpha : K

/-- The steps that a search may hand back. -/
structure Memory (K : Type) (n : Nat) where
  /-- The finite trial of lowest value, the earliest of equals. -/
  best : Option (Step K n)
  /-- The last trial. -/
  last : Step K n

variable {K : Type} [Scalar K] {n : Nat} {ε : Type}

/-- Checks `0 < c1 < c2 < 1` and that a trial is allowed. -/
def validate (c : StrongWolfe K) : Except ConfigError Unit :=
  if !Scalar.inOpenUnit c.c1 then .error .sufficientDecrease
  else if !Scalar.inOpenUnit c.c2 || decide (c.c2 ≤ c.c1) then .error .curvature
  else if c.maxIters = 0 then .error .maxIters
  else .ok ()

/-- The rounding slack of the decrease test. -/
def slack (r : Ray K n) : K :=
  2.0 * Scalar.epsilon * Scalar.abs r.value

/-- The value exceeds what the decrease test allows at step length `alpha`. -/
def tooHigh (c : StrongWolfe K) (r : Ray K n) (alpha value : K) : Bool :=
  decide (r.value + c.c1 * alpha * r.slope + slack r < value)

/-- The slope is flat enough for the curvature test. -/
def isFlat (c : StrongWolfe K) (r : Ray K n) (slope : K) : Bool :=
  decide (Scalar.abs slope ≤ c.c2 * Scalar.abs r.slope)

namespace Bracket

/-- The bracket that ends at the step just tried. -/
def cutAbove (b : Bracket K) : Bracket K :=
  { b with hi := some b.alpha, alpha := 0.5 * (b.lo + b.alpha) }

/-- The bracket that starts at the step just tried. -/
def cutBelow (b : Bracket K) : Bracket K :=
  let alpha := match b.hi with
    | some hi => if Scalar.isFinite hi then 0.5 * (b.alpha + hi) else 2.0 * b.alpha
    | none => 2.0 * b.alpha
  { b with lo := b.alpha, alpha }

end Bracket

namespace Memory

/-- Takes in a trial. -/
def add (m : Memory K n) (s : Step K n) : Memory K n where
  last := s
  best := match m.best with
    | some b => if s.finite && !decide (b.value ≤ s.value) then some s else some b
    | none => if s.finite then some s else none

/-- The step to hand back when the trials are used up. -/
def handBack (m : Memory K n) : Step K n :=
  { m.best.getD m.last with evaluations := m.last.evaluations }

end Memory

/-- Makes at most `budget` more trials. -/
def trials (c : StrongWolfe K) (f : Objective K n ε) (r : Ray K n) :
    (budget done : Nat) → Bracket K → Memory K n → Except ε (Step K n)
  | 0, _, _, m => return m.handBack
  | budget + 1, done, b, m => do
    let point := r.point b.alpha
    let value ← f.value point
    let finite := f.isFiniteAt point value
    let step : Step K n := {
      alpha := b.alpha, value, finite, gradient := none, satisfied := false
      evaluations := done + 1 }
    if !finite || c.tooHigh r b.alpha value then
      trials c f r budget (done + 1) b.cutAbove (m.add step)
    else
      let gradient ← f.gradient point
      let step := { step with gradient := some gradient }
      let slope := dot gradient r.direction
      if c.isFlat r slope then
        return { step with satisfied := true }
      else if slope < 0.0 then
        trials c f r budget (done + 1) b.cutBelow (m.add step)
      else
        trials c f r budget (done + 1) b.cutAbove (m.add step)

/-- Searches from step length `alpha`. When all trials fail, the finite one of lowest value is
handed back, or the last one if none was finite. -/
def search (c : StrongWolfe K) (f : Objective K n ε) (r : Ray K n) (alpha : K) :
    Except ε (Step K n) :=
  c.trials f r c.maxIters 0 { lo := 0.0, hi := none, alpha }
    { best := none
      last := {
        alpha, value := Scalar.nan, finite := false, gradient := none, satisfied := false
        evaluations := 0 } }

end StrongWolfe

end LocalOptimization.LineSearch
