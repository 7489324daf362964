import LocalOptimization.Linear

/-!
# Limited-memory BFGS

The model keeps the most recent correction pairs and applies the inverse Hessian that they imply:
every pair, from the newest to the oldest, is taken out of the gradient, the rest is scaled, and
the pairs are put back in the opposite order.
-/

namespace LocalOptimization

/-- A model learns only from pairs whose `yᵗs` exceeds this value. -/
def minCurvature {K : Type} [Arithmetic K] : K :=
  1e-10

/-- A step `s` with the change `y` of the gradient along it. -/
structure Lbfgs.Correction (K : Type) (n : Nat) where
  s : Vector K n
  y : Vector K n
  /-- The number `1 / yᵗs`. -/
  rho : K

/-- Limited-memory BFGS. -/
structure Lbfgs (K : Type) (n : Nat) where
  /-- The number of pairs to keep. -/
  memory : Nat
  /-- The pairs kept, newest first. -/
  corrections : List (Lbfgs.Correction K n) := []

namespace Lbfgs

variable {K : Type} [Arithmetic K] {n : Nat}

/-- The model without pairs. -/
def empty (memory : Nat) : Lbfgs K n where
  memory

/-- The scale of the initial inverse Hessian, `sᵗy / yᵗy` of the newest pair. -/
def scale : List (Correction K n) → K
  | [] => 1.0
  | c :: _ => dot c.s c.y / dot c.y c.y

/-- The product of the inverse Hessian implied by the pairs, newest first, with a vector; `gamma`
scales the initial one. -/
def applyInverse (gamma : K) : List (Correction K n) → Vector K n → Vector K n
  | [], q => gamma * q
  | c :: older, q =>
      let alpha := c.rho * dot c.s q
      let r := applyInverse gamma older (q - alpha * c.y)
      r + (alpha - c.rho * dot c.y r) * c.s

/-- The direction at gradient `g`. -/
def direction (m : Lbfgs K n) (g : Vector K n) : Vector K n :=
  -applyInverse (scale m.corrections) m.corrections g

/-- The model after a pair, unless the pair is skipped. At most `memory` pairs are kept. -/
def update? (m : Lbfgs K n) (s y : Vector K n) : Option (Lbfgs K n) :=
  let ys := dot y s
  if minCurvature < ys ∧ m.memory ≠ 0 then
    some { m with corrections := ({ s, y, rho := 1.0 / ys } :: m.corrections).take m.memory }
  else
    none

end Lbfgs

end LocalOptimization
