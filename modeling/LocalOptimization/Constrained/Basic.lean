import LocalOptimization.Constraint
import LocalOptimization.Decimal
import LocalOptimization.QuasiNewton.Basic

/-!
# Constrained minimization: parameters and results

What the methods for constrained problems have in common: the measures of convergence, the records
of outer iterations, Lagrange multipliers and errors.
-/

namespace LocalOptimization.Constrained

/-- The quantity that a method drives below its tolerance. -/
inductive Measure (K : Type) where
  /-- The largest constraint violation. -/
  | violation (value : K)
  /-- The estimate of the duality gap. -/
  | dualityGap (value : K)
  /-- The norm of the projected-gradient residual. -/
  | projectedGradient (value : K)

/-- Estimates of Lagrange multipliers, in the order of the constraints. -/
structure Multipliers (K : Type) where
  /-- The multipliers of the equalities. -/
  equality : List K := []
  /-- The multipliers of the inequalities. -/
  inequality : List K := []

/-- What is recorded of an outer iteration. -/
structure Record (K : Type) (n : Nat) where
  /-- The number of the iteration, 0 for the start. -/
  iteration : Nat
  x : Vector K n
  /-- The objective itself at the iterate. -/
  objective : K
  /-- The measure of convergence. -/
  measure : Measure K
  /-- The parameter of the iteration: a weight or a step length. -/
  parameter : K
  /-- The iterations of the inner run, 0 if there was none. -/
  innerIterations : Nat
  /-- Why the inner run ended, if there was one. -/
  innerStatus : Option Status

/-- Why parameters are refused. -/
inductive ConfigError where
  /-- The tolerance is not finite and positive. -/
  | tolerance
  /-- No outer iteration is allowed. -/
  | outerIters
  /-- The first parameter is not finite and positive. -/
  | initialParameter
  /-- The growth factor is not finite and above 1. -/
  | growth
  /-- The greatest parameter is not finite or is below the first. -/
  | maxParameter
  /-- The parameters of the step lie outside their ranges. -/
  | step
  /-- The inner method refuses its parameters. -/
  | inner (cause : QuasiNewton.ConfigError)
  deriving DecidableEq, Repr

/-- Why a run has no result. -/
inductive Error (K ε : Type) where
  | invalidConfig (cause : ConfigError)
  /-- The start, or the objective there, is not finite. -/
  | nonFiniteStart
  /-- An inequality does not hold strictly at the start. -/
  | infeasibleStart (index : Nat) (value : K)
  /-- The method cannot handle a kind of constraint. -/
  | unsupportedConstraint (method : Method) (kind : ConstraintKind)
  /-- An inner run has no result. -/
  | inner (cause : QuasiNewton.Error ε)
  | objective (cause : ε)

/-- The result of a run. -/
structure Solution (K : Type) (n : Nat) where
  status : Status
  /-- The record of the last iteration. -/
  last : Record K n
  /-- The multipliers at the last iterate. -/
  multipliers : Multipliers K
  history : History (Record K n)
  method : Method

/-- The measured value. -/
def Measure.value {K : Type} : Measure K → K
  | violation v | dualityGap v | projectedGradient v => v

/-- The text of a refusal. -/
def ConfigError.message : ConfigError → String
  | tolerance => "tolerance must be finite and positive"
  | outerIters => "the outer iteration limit must be at least 1"
  | initialParameter => "the initial parameter must be finite and positive"
  | growth => "growth factor must be finite and greater than 1"
  | maxParameter => "the parameter cap must be finite and at least the initial parameter"
  | step => "step parameters must satisfy 0 < c1 < 1, 0 < shrink < 1, and initial_step > 0"
  | inner cause => s!"inner solver: {cause.message}"

/-- The text of an error. -/
def Error.message {ε : Type} [ToString ε] : Error Float ε → String
  | invalidConfig cause => s!"invalid config: {cause.message}"
  | nonFiniteStart => "objective is not finite at the starting point"
  | infeasibleStart index value =>
      s!"starting point is not strictly feasible: inequality {index} has value {Decimal.text value}"
  | unsupportedConstraint method kind => s!"{method.name} does not support {kind.name} constraints"
  | inner cause => s!"inner solve failed: {cause.message}"
  | objective cause => s!"objective error: {cause}"

/-- The text of a status. -/
def reason : Status → String
  | .converged => "convergence measure below tolerance"
  | .exhausted => "outer iteration limit reached"
  | .gaveUp => "projected search found no decrease"
  | .stopped => "stopped by observer"

section Checks

variable {K : Type} [Scalar K]

/-- Checks that the tolerance is finite and positive. -/
def checkTolerance (tolerance : K) : Except ConfigError Unit :=
  if Scalar.isPositive tolerance then .ok () else .error .tolerance

/-- Checks that an outer iteration is allowed. -/
def checkOuterIters (maxOuterIters : Nat) : Except ConfigError Unit :=
  if maxOuterIters = 0 then .error .outerIters else .ok ()

/-- Checks a geometric schedule, whose greatest value may be given. -/
def checkSchedule (initial growth : K) (greatest : Option K) : Except ConfigError Unit :=
  if !Scalar.isPositive initial then .error .initialParameter
  else if !(Scalar.isFinite growth && decide (1.0 < growth)) then .error .growth
  else if greatest.all fun g => Scalar.isFinite g && decide (initial ≤ g) then .ok ()
  else .error .maxParameter

end Checks

end LocalOptimization.Constrained
