import LocalOptimization.Method
import LocalOptimization.TrustRegion.Dogleg
import LocalOptimization.TrustRegion.SteihaugCg

/-!
# Minimizing a model inside a ball

The choice among the approximate minimizers.
-/

namespace LocalOptimization.TrustRegion

/-- An approximate minimizer of the model inside a ball. -/
inductive Subproblem where
  | cauchy
  | dogleg
  | steihaugCg
  deriving DecidableEq, Repr

namespace Subproblem

/-- The method that the choice makes of a trust region. -/
def method : Subproblem → Method
  | cauchy => .trustRegionCauchy
  | dogleg => .trustRegionDogleg
  | steihaugCg => .trustRegionSteihaugCg

/-- The step that the minimizer proposes. -/
def solve {K : Type} [Scalar K] {n : Nat} (s : Subproblem) (m : Model K n) (radius : K) :
    Trial K n :=
  match s with
  | cauchy => cauchyPoint m radius
  | dogleg => TrustRegion.dogleg m radius
  | steihaugCg => TrustRegion.steihaugCg m radius

end Subproblem

end LocalOptimization.TrustRegion
