import LocalOptimization.Curvature.DavidonFletcherPowell
import LocalOptimization.Curvature.SymmetricRankOne
import LocalOptimization.Method

/-!
# Curvature models for descent

The quasi-Newton models that turn a gradient and the pairs seen so far into a search direction. A
model skips a pair that it cannot take in safely.
-/

namespace LocalOptimization

/-- A curvature model. -/
inductive Curvature (K : Type) (n : Nat) where
  | lbfgs (model : Lbfgs K n)
  | sr1 (model : SymmetricRankOne K n)
  | dfp (model : DavidonFletcherPowell K n)

/-- The choice of a curvature model. -/
inductive Curvature.Choice where
  /-- Limited-memory BFGS with this many pairs. -/
  | lbfgs (memory : Nat)
  | sr1
  | dfp
  deriving DecidableEq, Repr

namespace Curvature

variable {K : Type} [Scalar K] {n : Nat}

/-- The method that the choice makes of line-search descent. -/
def Choice.method : Choice → Method
  | lbfgs _ => .lbfgs
  | sr1 => .sr1
  | dfp => .dfp

/-- The model before any pair. -/
def Choice.initial : Choice → Curvature K n
  | lbfgs memory => .lbfgs (.empty memory)
  | sr1 => .sr1 .initial
  | dfp => .dfp .initial

/-- The direction at gradient `g`. -/
def direction (m : Curvature K n) (g : Vector K n) : Vector K n :=
  match m with
  | lbfgs model => model.direction g
  | sr1 model => model.direction g
  | dfp model => model.direction g

/-- The model after a pair, unless the pair is skipped. -/
def update? (m : Curvature K n) (s y : Vector K n) : Option (Curvature K n) :=
  match m with
  | lbfgs model => (model.update? s y).map lbfgs
  | sr1 model => (model.update? s y).map sr1
  | dfp model => (model.update? s y).map dfp

end Curvature

end LocalOptimization
