import LocalOptimization.TrustRegion.Model

/-!
# The Cauchy point

The minimizer of the model along steepest descent, inside the ball. Where the model does not curve
upwards it falls all the way to the boundary.
-/

namespace LocalOptimization.TrustRegion

variable {K : Type} [Scalar K] {n : Nat}

/-- The part of the radius that the Cauchy point uses, `min(1, ‖g‖³ / (Δ·gᵗHg))`. -/
def cauchyFraction (m : Model K n) (radius : K) : K :=
  let gNorm := norm m.gradient
  let ghg := quadraticForm m.hessian m.gradient
  if 0.0 < ghg then Scalar.min (gNorm * gNorm * gNorm / (radius * ghg)) 1.0 else 1.0

/-- The Cauchy point. -/
def cauchyPoint (m : Model K n) (radius : K) : Trial K n :=
  if m.isStuck radius then .zero
  else
    let tau := cauchyFraction m radius
    { p := (-tau * radius / norm m.gradient) * m.gradient
      onBoundary := decide (1.0 ≤ tau) }

end LocalOptimization.TrustRegion
