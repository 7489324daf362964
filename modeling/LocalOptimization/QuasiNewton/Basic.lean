import LocalOptimization.Curvature
import LocalOptimization.LineSearch
import LocalOptimization.Run

/-!
# Line-search descent: parameters and results

Each iteration takes a direction from a curvature model and a step length from a line search.
-/

namespace LocalOptimization.QuasiNewton

/-- The parameters of line-search descent. -/
structure Config (K : Type) [Scalar K] where
  /-- The curvature model. -/
  method : Curvature.Choice := .lbfgs 10
  /-- The line search. -/
  lineSearch : LineSearch K := .strongWolfe {}
  /-- Converged once the gradient norm drops below this value. -/
  gradientTol : K := 1e-6
  maxIters : Nat := 1000
  /-- The number of records to keep, `none` for all. -/
  historyLimit : Option Nat := none

/-- Why parameters are refused. -/
inductive ConfigError where
  /-- The gradient tolerance is not finite and positive. -/
  | gradientTol
  /-- The model may keep no pairs. -/
  | memory
  /-- The line search refuses its parameters. -/
  | lineSearch (cause : LineSearch.ConfigError)
  deriving DecidableEq, Repr

/-- Why a run has no result. -/
inductive Error (ε : Type) where
  | invalidConfig (cause : ConfigError)
  /-- The start, or the objective there, is not finite. -/
  | nonFiniteStart
  | objective (cause : ε)

/-- What is recorded of an iteration. -/
structure Record (K : Type) (n : Nat) where
  /-- The number of the iteration, 0 for the start. -/
  iteration : Nat
  x : Vector K n
  objective : K
  gradientNorm : K
  /-- The step length that led to the iterate, 0 for the start. -/
  stepLength : K
  /-- The curvature model skipped the pair of this iteration. -/
  stale : Bool

/-- What an observer is told of an iteration. -/
structure Event (K : Type) (n : Nat) where
  record : Record K n
  gradient : Vector K n

/-- The result of a run. -/
structure Solution (K : Type) (n : Nat) where
  status : Status
  final : Evaluation K n
  iterations : Nat
  history : History (Record K n)
  method : Method

/-- The text of a refusal. -/
def ConfigError.message : ConfigError → String
  | gradientTol => "gradient_tol must be finite and positive"
  | memory => "L-BFGS memory must be at least 1"
  | lineSearch cause => s!"line search: {cause.message}"

/-- The text of an error. -/
def Error.message {ε : Type} [ToString ε] : Error ε → String
  | invalidConfig cause => s!"invalid config: {cause.message}"
  | nonFiniteStart => "objective or gradient is not finite at the starting point"
  | objective cause => s!"objective error: {cause}"

/-- The text of a status. -/
def reason : Status → String
  | .converged => "gradient norm below tolerance"
  | .exhausted => "iteration limit reached"
  | .gaveUp => "line search found no decrease"
  | .stopped => "stopped by observer"

/-- Checks the parameters. -/
def Config.validate {K : Type} [Scalar K] (c : Config K) : Except ConfigError Unit :=
  if !Scalar.isPositive c.gradientTol then .error .gradientTol
  else if c.method = .lbfgs 0 then .error .memory
  else c.lineSearch.validate.mapError .lineSearch

end LocalOptimization.QuasiNewton
