/-!
# Names of the methods

Every solution names the method that produced it.
-/

namespace LocalOptimization

/-- The methods of the library. -/
inductive Method where
  /-- Line-search descent with limited-memory BFGS. -/
  | lbfgs
  /-- Line-search descent with symmetric rank-one updates. -/
  | sr1
  /-- Line-search descent with Davidon-Fletcher-Powell updates. -/
  | dfp
  /-- A trust region with the Cauchy point. -/
  | trustRegionCauchy
  /-- A trust region with the dogleg path. -/
  | trustRegionDogleg
  /-- A trust region with truncated conjugate gradients. -/
  | trustRegionSteihaugCg
  /-- The quadratic penalty. -/
  | quadraticPenalty
  /-- The logarithmic barrier. -/
  | logBarrier
  /-- The augmented Lagrangian. -/
  | augmentedLagrangian
  /-- The projected gradient. -/
  | projectedGradient
  /-- Broyden's method for equations. -/
  | broyden
  deriving DecidableEq, Repr

namespace Method

/-- All methods. -/
def all : List Method :=
  [lbfgs, sr1, dfp, trustRegionCauchy, trustRegionDogleg, trustRegionSteihaugCg, quadraticPenalty,
    logBarrier, augmentedLagrangian, projectedGradient, broyden]

/-- The stable name of a method. -/
def name : Method → String
  | lbfgs => "lbfgs"
  | sr1 => "sr1"
  | dfp => "dfp"
  | trustRegionCauchy => "trust-region-cauchy"
  | trustRegionDogleg => "trust-region-dogleg"
  | trustRegionSteihaugCg => "trust-region-steihaug-cg"
  | quadraticPenalty => "quadratic-penalty"
  | logBarrier => "log-barrier"
  | augmentedLagrangian => "augmented-lagrangian"
  | projectedGradient => "projected-gradient"
  | broyden => "broyden"

end Method

end LocalOptimization
