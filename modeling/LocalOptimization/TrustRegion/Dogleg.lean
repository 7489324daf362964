import LocalOptimization.Linear.Solve
import LocalOptimization.TrustRegion.Cauchy

/-!
# The dogleg path

The path runs from the origin to the minimizer of the model along steepest descent, on to the
Newton step, and is cut where it leaves the ball. It makes sense only where the Hessian is
positive definite along it; elsewhere the Cauchy point takes its place.
-/

namespace LocalOptimization.TrustRegion

variable {K : Type} [Scalar K] {n : Nat}

/-- The minimizer of the model along steepest descent, `-(gᵗg / gᵗHg)·g`. -/
def steepestMinimizer (m : Model K n) : Vector K n :=
  let gNorm := norm m.gradient
  (-(gNorm * gNorm) / quadraticForm m.hessian m.gradient) * m.gradient

/-- The point where the path that ends in the Newton step leaves the ball, or the Newton step. -/
def doglegCut (m : Model K n) (newton : Vector K n) (radius : K) : Trial K n :=
  if norm newton ≤ radius then
    { p := newton, onBoundary := false }
  else
    let u := steepestMinimizer m
    let uNorm := norm u
    if radius ≤ uNorm then
      { p := (radius / uNorm) * u, onBoundary := true }
    else
      toBoundary u (newton - u) radius

/-- The dogleg step. -/
def dogleg (m : Model K n) (radius : K) : Trial K n :=
  if m.isStuck radius then .zero
  else
    let newton := solveLinear m.hessian (-m.gradient)
    if !newton.isRegular
        || decide (quadraticForm m.hessian m.gradient ≤ 0.0)
        || decide (0.0 ≤ dot m.gradient newton.x) then
      cauchyPoint m radius
    else
      let cut := doglegCut m newton.x radius
      if m.predictedReduction cut.p < 0.0 then cauchyPoint m radius else cut

end LocalOptimization.TrustRegion
