import LocalOptimization.LineSearch.Basic

/-!
# Backtracking

The step length is shrunk until the objective has decreased sufficiently,
`f(x + α·d) ≤ f(x) + c1·α·gᵗd`.
-/

namespace LocalOptimization.LineSearch

/-- The parameters of a backtracking search. -/
structure Backtracking (K : Type) [Scalar K] where
  /-- The sufficient-decrease constant. -/
  c1 : K := 1e-4
  /-- The factor from one trial to the next. -/
  shrink : K := 0.5
  /-- The number of trials. -/
  maxIters : Nat := 50

namespace Backtracking

variable {K : Type} [Scalar K] {n : Nat} {ε : Type}

/-- Checks that both constants lie in the open unit interval and a trial is allowed. -/
def validate (c : Backtracking K) : Except ConfigError Unit :=
  if !Scalar.inOpenUnit c.c1 then .error .sufficientDecrease
  else if !Scalar.inOpenUnit c.shrink then .error .shrink
  else if c.maxIters = 0 then .error .maxIters
  else .ok ()

/-- The value decreases sufficiently at step length `alpha`. -/
def accepts (c : Backtracking K) (r : Ray K n) (alpha value : K) : Bool :=
  decide (value ≤ r.value + c.c1 * alpha * r.slope)

/-- The trial at `alpha`, after `done` others. -/
def trial (c : Backtracking K) (f : Objective K n ε) (r : Ray K n) (done : Nat) (alpha : K) :
    Except ε (Step K n) := do
  let value ← f.value (r.point alpha)
  let finite := f.isFiniteAt (r.point alpha) value
  return {
    alpha, value, finite, gradient := none, satisfied := finite && c.accepts r alpha value
    evaluations := done + 1 }

/-- Makes one trial at `alpha` and, while it fails, at most `more` further ones. -/
def trials (c : Backtracking K) (f : Objective K n ε) (r : Ray K n) :
    (more done : Nat) → K → Except ε (Step K n)
  | 0, done, alpha => c.trial f r done alpha
  | more + 1, done, alpha => do
    let step ← c.trial f r done alpha
    if step.satisfied then
      return step
    else
      trials c f r more (done + 1) (alpha * c.shrink)

/-- Searches from step length `alpha`. When all trials fail, the last one is handed back. -/
def search (c : Backtracking K) (f : Objective K n ε) (r : Ray K n) (alpha : K) :
    Except ε (Step K n) :=
  match c.maxIters with
  | 0 => return {
      alpha, value := Scalar.nan, finite := false, gradient := none, satisfied := false
      evaluations := 0 }
  | more + 1 => c.trials f r more 0 alpha

end Backtracking

end LocalOptimization.LineSearch
