import Mathlib
import LocalOptimization.Box
import LocalOptimization.Constraint
import LocalOptimization.Proofs.LineSearch
import LocalOptimization.Scalar.Float

/-!
# Problems in one variable

An objective or a constraint given by two functions of a number: its value and its derivative.
-/

namespace LocalOptimization

variable {K : Type} [Scalar K]

/-- The objective with the given value and derivative. It never fails. -/
def Objective.univariate (value derivative : K → K) : Objective K 1 Empty where
  value x := .ok (value (x.get (Fin.last 0)))
  gradient x := .ok #v[derivative (x.get (Fin.last 0))]

/-- The constraint with the given value and derivative. -/
def Constraint.univariate (value derivative : K → K) : Constraint K 1 where
  value x := value (x.get (Fin.last 0))
  gradient x := #v[derivative (x.get (Fin.last 0))]

theorem Objective.total_univariate (value derivative : K → K) :
    (Objective.univariate value derivative).Total :=
  ⟨fun _ => ⟨_, rfl⟩, fun _ => ⟨_, rfl⟩⟩

/-- The square. -/
def square : Objective Float 1 Empty :=
  .univariate (fun x => x * x) (fun x => 2.0 * x)

/-- The constraint `x ≤ 3`. -/
def atMostThree : ConstraintSet Float 1 where
  inequalities := [.univariate (· - 3.0) (fun _ => 1.0)]

/-- The numbers from 1 on. -/
def atLeastOne : Box Float 1 where
  lower := #v[some 1.0]
  upper := #v[none]
  faultless := by decide +kernel

end LocalOptimization
