import LocalOptimization.Objective
import LocalOptimization.Run
import LocalOptimization.TrustRegion.Subproblem

/-!
# Trust regions: parameters and results

Each iteration minimizes a quadratic model inside a ball, whose radius follows the agreement
between the model and the objective.
-/

namespace LocalOptimization.TrustRegion

/-- The Hessian of the model where the objective provides none. -/
inductive HessianChoice where
  /-- Central differences of the gradient. -/
  | finiteDifference
  /-- Symmetric rank-one updates along the accepted steps. -/
  | sr1
  deriving DecidableEq, Repr

/-- The parameters of a trust-region run. -/
structure Config (K : Type) [Scalar K] where
  /-- The minimizer of the model. -/
  subproblem : Subproblem := .dogleg
  /-- The Hessian of the model where the objective provides none. -/
  hessian : HessianChoice := .finiteDifference
  /-- The radius at the start. -/
  initialRadius : K := 1.0
  /-- The radius grows no further than this. -/
  maxRadius : K := 100.0
  /-- The run gives up once the radius is below this. -/
  minRadius : K := 1e-12
  /-- Steps are accepted when their ratio exceeds this. -/
  eta : K := 0.15
  /-- Converged once the gradient norm drops below this value. -/
  gradientTol : K := 1e-6
  maxIters : Nat := 500
  /-- The number of records to keep, `none` for all. -/
  historyLimit : Option Nat := none

/-- Why parameters are refused. -/
inductive ConfigError where
  /-- The greatest radius is not finite and positive. -/
  | maxRadius
  /-- The first radius is not finite and positive, or exceeds the greatest. -/
  | initialRadius
  /-- The least radius is negative or not below the first. -/
  | minRadius
  /-- The acceptance threshold lies outside its range. -/
  | eta
  /-- The gradient tolerance is not finite and positive. -/
  | gradientTol
  deriving DecidableEq, Repr

/-- Why a run has no result. -/
inductive Error (ε : Type) where
  | invalidConfig (cause : ConfigError)
  /-- The start, or the objective or the model there, is not finite. -/
  | nonFiniteStart
  | objective (cause : ε)

/-- What is recorded of an iteration. -/
structure Record (K : Type) (n : Nat) where
  /-- The number of the iteration, 0 for the start. -/
  iteration : Nat
  /-- The iterate, the former one if the step was rejected. -/
  x : Vector K n
  objective : K
  gradientNorm : K
  /-- The radius for the next iteration. -/
  radius : K
  /-- The actual reduction over the predicted one. -/
  ratio : K
  /-- The length of the step that was tried. -/
  stepNorm : K
  /-- The step was accepted. -/
  accepted : Bool
  /-- The rank-one model skipped the pair of this iteration. -/
  stale : Bool

/-- What an observer is told of an iteration. -/
structure Event (K : Type) (n : Nat) where
  record : Record K n
  gradient : Vector K n
  /-- The reduction of the objective along the step that was tried. -/
  actualReduction : K
  /-- The reduction that the model predicted. -/
  predictedReduction : K

/-- The result of a run. -/
structure Solution (K : Type) (n : Nat) where
  status : Status
  final : Evaluation K n
  radius : K
  iterations : Nat
  history : History (Record K n)
  method : Method

/-- The text of a refusal. -/
def ConfigError.message : ConfigError → String
  | maxRadius => "max_radius must be finite and positive"
  | initialRadius => "initial_radius must lie in (0, max_radius]"
  | minRadius => "min_radius must be finite, non-negative, and below initial_radius"
  | eta => "eta must lie in [0, 0.25)"
  | gradientTol => "gradient_tol must be finite and positive"

/-- The text of an error. -/
def Error.message {ε : Type} [ToString ε] : Error ε → String
  | invalidConfig cause => s!"invalid config: {cause.message}"
  | nonFiniteStart => "objective, gradient, or Hessian is not finite at the starting point"
  | objective cause => s!"objective error: {cause}"

/-- The text of a status. -/
def reason : Status → String
  | .converged => "gradient norm below tolerance"
  | .exhausted => "iteration limit reached"
  | .gaveUp => "trust radius collapsed"
  | .stopped => "stopped by observer"

/-- Checks the parameters. The acceptance threshold stays below a quarter, where the radius shrinks,
so that a step whose ratio is rejected as too small shrinks the radius. A ratio that is not a number
is rejected too, and leaves the radius as it is. -/
def Config.validate {K : Type} [Scalar K] (c : Config K) : Except ConfigError Unit :=
  if !Scalar.isPositive c.maxRadius then .error .maxRadius
  else if !(Scalar.isPositive c.initialRadius && decide (c.initialRadius ≤ c.maxRadius)) then
    .error .initialRadius
  else if !(Scalar.isFinite c.minRadius && decide (0.0 ≤ c.minRadius)
      && decide (c.minRadius < c.initialRadius)) then
    .error .minRadius
  else if !(decide (0.0 ≤ c.eta) && decide (c.eta < 0.25)) then .error .eta
  else if !Scalar.isPositive c.gradientTol then .error .gradientTol
  else .ok ()

end LocalOptimization.TrustRegion
