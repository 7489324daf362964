import LocalOptimization.Difference

/-!
# Constraints

Equality constraints `h(x) = 0` and inequality constraints `g(x) ≤ 0`, in the order in which they
were added. Constraint functions do not fail, but their values may be undefined.
-/

namespace LocalOptimization

/-- A constraint function with its gradient. -/
structure Constraint (K : Type) [Scalar K] (n : Nat) where
  value : Vector K n → K
  gradient : Vector K n → Vector K n

/-- The kinds of constraint. -/
inductive ConstraintKind where
  /-- A constraint `h(x) = 0`. -/
  | equality
  /-- A constraint `g(x) ≤ 0`. -/
  | inequality
  deriving DecidableEq, Repr

/-- Equality and inequality constraints, each in their order. -/
structure ConstraintSet (K : Type) [Scalar K] (n : Nat) where
  /-- The functions that are to vanish. -/
  equalities : List (Constraint K n) := []
  /-- The functions that are not to exceed zero. -/
  inequalities : List (Constraint K n) := []

variable {K : Type} [Scalar K] {n : Nat}

/-- A constraint whose gradient is taken by central differences. -/
def Constraint.ofValue (value : Vector K n → K) : Constraint K n where
  value
  gradient x := match Difference.gradient (fun p => (.ok (value p) : Except Empty K)) x with
    | .ok g => g

/-- Adds a multiple of the gradient at `x` to a vector. -/
def Constraint.addGradient (g : Constraint K n) (x : Vector K n) (coefficient : K)
    (v : Vector K n) : Vector K n :=
  v + coefficient * g.gradient x

/-- The name of the kind. -/
def ConstraintKind.name : ConstraintKind → String
  | equality => "equality"
  | inequality => "inequality"

namespace ConstraintSet

/-- There are no constraints. -/
def isEmpty (c : ConstraintSet K n) : Bool :=
  c.equalities.isEmpty && c.inequalities.isEmpty

/-- The largest of all `|h(x)|` and `max(0, g(x))`, zero without constraints. -/
def maxViolation (c : ConstraintSet K n) (x : Vector K n) : K :=
  let equality := c.equalities.map fun h => Scalar.abs (h.value x)
  let inequality := c.inequalities.map fun g => Scalar.max (g.value x) 0.0
  (equality ++ inequality).foldl Scalar.max 0.0

/-- The value lies below zero, so it is not undefined either. -/
def isStrictlyFeasible (value : K) : Bool :=
  decide (value < 0.0)

/-- The first inequality that does not hold strictly, with its value. -/
def firstNotStrictlyFeasible (c : ConstraintSet K n) (x : Vector K n) : Option (Nat × K) :=
  (c.inequalities.zipIdx.map fun (g, i) => (i, g.value x)).find? fun (_, v) => !isStrictlyFeasible v

/-- Every inequality holds strictly. -/
def interior (c : ConstraintSet K n) (x : Vector K n) : Bool :=
  c.inequalities.all fun g => isStrictlyFeasible (g.value x)

theorem interior_iff (c : ConstraintSet K n) (x : Vector K n) :
    c.interior x = true ↔ ∀ g ∈ c.inequalities, g.value x < 0.0 := by
  simp [interior, isStrictlyFeasible]

theorem firstNotStrictlyFeasible_eq_none_iff (c : ConstraintSet K n) (x : Vector K n) :
    c.firstNotStrictlyFeasible x = none ↔ c.interior x = true := by
  rw [interior_iff]
  simp only [firstNotStrictlyFeasible, List.find?_eq_none, List.mem_map, Prod.exists]
  constructor
  · intro h g hg
    obtain ⟨i, hi, rfl⟩ := List.getElem_of_mem hg
    have := h (i, c.inequalities[i].value x)
      ⟨c.inequalities[i], i, by simp [List.mem_zipIdx_iff_getElem?], rfl⟩
    simpa [isStrictlyFeasible] using this
  · rintro h _ ⟨g, i, hg, rfl⟩
    simpa [isStrictlyFeasible] using h g (List.fst_mem_of_mem_zipIdx hg)

end ConstraintSet

end LocalOptimization
