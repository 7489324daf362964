import LocalOptimization.Curvature.Secant
import LocalOptimization.Method
import LocalOptimization.Run

/-!
# Systems of equations: parameters and results

A square system `F(x) = 0` is solved by steps that reduce the norm of the residuals.
-/

namespace LocalOptimization.Broyden

/-- The residuals of a square system, which may fail to be computed. -/
abbrev System (K : Type) (n : Nat) (ε : Type) : Type :=
  Vector K n → Except ε (Vector K n)

/-- The parameters of Broyden's method. -/
structure Config (K : Type) [Scalar K] where
  /-- Converged once the residual norm drops below this value. -/
  residualTol : K := 1e-10
  maxIters : Nat := 100
  /-- The constant `c` in `‖F(x + α·d)‖ ≤ (1 - c·α)·‖F(x)‖`. -/
  sufficientDecrease : K := 1e-4
  /-- The factor from one trial to the next. -/
  shrink : K := 0.5
  /-- The number of trials along a step. -/
  maxBacktracks : Nat := 40
  /-- The number of records to keep, `none` for all. -/
  historyLimit : Option Nat := none

/-- Why parameters are refused. -/
inductive ConfigError where
  /-- The residual tolerance is not finite and positive. -/
  | residualTol
  /-- No iteration is allowed. -/
  | maxIters
  /-- The parameters of the backtracking lie outside their ranges. -/
  | backtracking
  deriving DecidableEq, Repr

/-- Why a run has no result. -/
inductive Error (ε : Type) where
  | invalidConfig (cause : ConfigError)
  /-- The start, or the residual norm there, is not finite. -/
  | nonFiniteStart
  | system (cause : ε)

/-- What is recorded of an iteration. -/
structure Record (K : Type) (n : Nat) where
  /-- The number of the iteration, 0 for the start. -/
  iteration : Nat
  x : Vector K n
  residualNorm : K
  /-- The step length that led to the iterate, 0 for the start. -/
  stepLength : K
  /-- The Jacobian was differenced afresh for the step. -/
  refreshed : Bool

/-- What an observer is told of an iteration. -/
structure Event (K : Type) (n : Nat) where
  record : Record K n
  residuals : Vector K n

/-- A point with its residuals. -/
structure Iterate (K : Type) (n : Nat) where
  x : Vector K n
  residuals : Vector K n

/-- The result of a run. -/
structure Solution (K : Type) (n : Nat) where
  status : Status
  final : Iterate K n
  iterations : Nat
  history : History (Record K n)
  method : Method

/-- The text of a refusal. -/
def ConfigError.message : ConfigError → String
  | residualTol => "residual_tol must be positive and finite"
  | maxIters => "max_iters must be at least 1"
  | backtracking => "sufficient_decrease and shrink must lie in (0, 1) with max_backtracks ≥ 1"

/-- The text of an error. -/
def Error.message {ε : Type} [ToString ε] : Error ε → String
  | invalidConfig cause => s!"invalid config: {cause.message}"
  | nonFiniteStart => "residuals are not finite at the starting point"
  | system cause => s!"system error: {cause}"

/-- The text of a status. -/
def reason : Status → String
  | .converged => "residual norm below tolerance"
  | .exhausted => "iteration limit reached"
  | .gaveUp => "no step reduced the residual norm"
  | .stopped => "stopped by observer"

variable {K : Type} [Scalar K] {n : Nat}

/-- Checks the parameters. -/
def Config.validate (c : Config K) : Except ConfigError Unit :=
  if !Scalar.isPositive c.residualTol then .error .residualTol
  else if c.maxIters = 0 then .error .maxIters
  else if Scalar.inOpenUnit c.sufficientDecrease && Scalar.inOpenUnit c.shrink
      && c.maxBacktracks != 0 then .ok ()
  else .error .backtracking

/-- The norm of the residuals. -/
def Iterate.residualNorm (i : Iterate K n) : K :=
  norm i.residuals

end LocalOptimization.Broyden
