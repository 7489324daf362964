import LocalOptimization.LineSearch.Backtracking
import LocalOptimization.LineSearch.StrongWolfe

/-!
# Line searches

The choice of a line search with its parameters.
-/

namespace LocalOptimization

/-- A line search. -/
inductive LineSearch (K : Type) [Scalar K] where
  /-- Shrinking steps until the objective has decreased. -/
  | backtracking (config : LineSearch.Backtracking K)
  /-- Bracketing a step that satisfies the strong Wolfe conditions. -/
  | strongWolfe (config : LineSearch.StrongWolfe K)

namespace LineSearch

variable {K : Type} [Scalar K] {n : Nat} {ε : Type}

/-- Checks the parameters. -/
def validate : LineSearch K → Except ConfigError Unit
  | backtracking c => c.validate
  | strongWolfe c => c.validate

/-- Searches along a ray from step length `alpha`. -/
def search (l : LineSearch K) (f : Objective K n ε) (r : Ray K n) (alpha : K) :
    Except ε (Step K n) :=
  match l with
  | backtracking c => c.search f r alpha
  | strongWolfe c => c.search f r alpha

end LineSearch

end LocalOptimization
