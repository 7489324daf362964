import LocalOptimization.TrustRegion.Model

/-!
# Truncated conjugate gradients

Conjugate gradients on `H·p = -g` from the origin, until the residual is small. A direction along
which the model does not curve upwards, or an iterate outside the ball, ends the iteration on the
boundary.
-/

namespace LocalOptimization.TrustRegion

variable {K : Type} [Scalar K] {n : Nat}

/-- A state of the conjugate gradient iteration. -/
structure ConjugateGradient (K : Type) (n : Nat) where
  z : Vector K n
  /-- The residual `H·z + g`. -/
  r : Vector K n
  d : Vector K n

namespace ConjugateGradient

/-- Makes at most `budget` steps until the residual is below `tolerance`. -/
def iterate (h : Matrix K n) (radius tolerance : K) : Nat → ConjugateGradient K n → Trial K n
  | 0, s => { p := s.z, onBoundary := false }
  | budget + 1, s =>
      let curvature := quadraticForm h s.d
      if 0.0 < curvature then
        let rr := dot s.r s.r
        let alpha := rr / curvature
        let z := s.z + alpha * s.d
        if radius ≤ norm z then
          toBoundary s.z s.d radius
        else
          let r := s.r + alpha * mulVec h s.d
          if norm r < tolerance then
            { p := z, onBoundary := false }
          else
            iterate h radius tolerance budget { z, r, d := -r + (dot r r / rr) * s.d }
      else
        toBoundary s.z s.d radius

end ConjugateGradient

/-- The residual that ends the iteration, `min(½, √‖g‖)·‖g‖`. -/
def steihaugTolerance (g : Vector K n) : K :=
  Scalar.min (Scalar.sqrt (norm g)) 0.5 * norm g

/-- The truncated conjugate gradient step, after at most `n` iterations. -/
def steihaugCg (m : Model K n) (radius : K) : Trial K n :=
  if m.isStuck radius then .zero
  else
    ConjugateGradient.iterate m.hessian radius (steihaugTolerance m.gradient) n
      { z := zeros, r := m.gradient, d := -m.gradient }

end LocalOptimization.TrustRegion
