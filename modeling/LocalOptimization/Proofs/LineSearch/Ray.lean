import Mathlib
import LocalOptimization.LineSearch.Basic
import LocalOptimization.Proofs.Exact
import LocalOptimization.Proofs.Univariate

/-!
# Objectives along a ray

Over the real numbers an objective along a ray is a function of the step length, whose derivative is
the slope of the objective.
-/

namespace LocalOptimization.LineSearch

variable {n : Nat} {ε : Type} {f : Objective ℝ n ε} {r : Ray ℝ n} {phi slope : ℝ → ℝ}

theorem Ray.point_zero (r : Ray ℝ n) : r.point 0 = r.x := by
  ext i hi
  rw [point, Exact.zero_hmul, Vector.getElem_add, getElem_zeros, Exact.zero_eq, add_zero]

/-- Along the ray the objective is the function `phi` of the step length, and the ray reports its
value at the start. -/
structure Follows (f : Objective ℝ n ε) (r : Ray ℝ n) (phi : ℝ → ℝ) : Prop where
  value : ∀ a, 0 ≤ a → f.value (r.point a) = .ok (phi a)
  start : f.value r.x = .ok r.value

theorem Follows.phi_zero (follows : Follows f r phi) : phi 0 = r.value := by
  have hvalue := follows.value 0 (le_refl 0)
  rw [r.point_zero, follows.start] at hvalue
  exact (Except.ok.inj hvalue).symm

/-- Along the ray the objective is defined and continuously differentiable, and its gradient has the
derivative `slope` along the direction of the ray. -/
structure Smooth (f : Objective ℝ n ε) (r : Ray ℝ n) (phi slope : ℝ → ℝ) : Prop
    extends Follows f r phi where
  domain : ∀ a, 0 ≤ a → f.domain (r.point a) = true
  gradient : ∀ a, 0 ≤ a → ∃ g, f.gradient (r.point a) = .ok g ∧ dot g r.direction = slope a
  startGradient : f.gradient r.x = .ok r.gradient
  derivative : ∀ a, 0 ≤ a → HasDerivWithinAt phi (slope a) (Set.Ici 0) a
  continuous : ContinuousOn slope (Set.Ici 0)

namespace Smooth

theorem slope_zero (smooth : Smooth f r phi slope) : slope 0 = r.slope := by
  obtain ⟨g, hg, hslope⟩ := smooth.gradient 0 (le_refl 0)
  rw [r.point_zero, smooth.startGradient] at hg
  rw [← hslope, ← Except.ok.inj hg, Ray.slope]

theorem isFiniteAt (smooth : Smooth f r phi slope) {a : ℝ} (ha : 0 ≤ a) (v : ℝ) :
    f.isFiniteAt (r.point a) v = true := by
  rw [Objective.isFiniteAt, smooth.domain a ha, Exact.isFinite, Bool.and_self]

end Smooth

section Example

/-- The square as a function of real numbers. -/
noncomputable def realSquare : Objective ℝ 1 Empty :=
  .univariate (fun x => x * x) (fun x => 2.0 * x)

theorem total_realSquare : realSquare.Total :=
  Objective.total_univariate _ _

/-- The direction of steepest descent of the square at 1. -/
noncomputable def steepestRay : Ray ℝ 1 where
  x := .ofFn ![1.0]
  value := 1.0
  gradient := .ofFn ![2.0]
  direction := .ofFn ![-2.0]

theorem get_point_steepestRay (a : ℝ) : (steepestRay.point a).get (Fin.last 0) = 1 - 2 * a := by
  have hentry : (steepestRay.point a).get (Fin.last 0) = 1.0 + a * -2.0 := by
    simp [steepestRay, Ray.point, Vector.get_eq_getElem]
  rw [hentry]
  norm_num
  ring

theorem dot_steepestRay (b : ℝ) : dot #v[b] steepestRay.direction = -2 * b := by
  rw [Exact.dot_eq_sum, Fin.sum_univ_one]
  norm_num [steepestRay, Vector.get_eq_getElem]
  ring

theorem slope_steepestRay : steepestRay.slope = -4 := by
  rw [Ray.slope, Exact.dot_eq_sum, Fin.sum_univ_one]
  norm_num [steepestRay, Vector.get_eq_getElem]

theorem smooth_realSquare :
    Smooth realSquare steepestRay (fun a => (1 - 2 * a) * (1 - 2 * a))
      (fun a => -4 * (1 - 2 * a)) where
  value a _ := by
    rw [← get_point_steepestRay a]
    rfl
  start := by
    norm_num [realSquare, Objective.univariate, steepestRay, Vector.get_eq_getElem]
  domain _ _ := rfl
  gradient a _ := by
    refine ⟨_, rfl, ?_⟩
    rw [dot_steepestRay, get_point_steepestRay]
    norm_num
    ring
  startGradient := by
    refine congrArg Except.ok ?_
    ext i hi
    interval_cases i
    norm_num [steepestRay, Vector.get_eq_getElem]
  derivative a _ := by
    have hinner : HasDerivAt (fun a : ℝ => 1 - 2 * a) (-2) a := by
      simpa using ((hasDerivAt_id a).const_mul 2).const_sub 1
    refine ((hinner.mul hinner).congr_deriv ?_).hasDerivWithinAt
    ring
  continuous := by fun_prop

end Example

end LocalOptimization.LineSearch
