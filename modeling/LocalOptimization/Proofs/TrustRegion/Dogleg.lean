import Mathlib
import LocalOptimization.Proofs.TrustRegion.Cauchy
import LocalOptimization.Proofs.TrustRegion.Quadratic

/-!
# The dogleg path

The first leg of the path is steepest descent up to where the model stops to fall. Where the model
is convex, it falls on along the second leg, up to the Newton step, which no other step surpasses.
Where it is not, the path is given up for the Cauchy point as soon as the model rises.
-/

namespace LocalOptimization.TrustRegion

open Exact (IsSymmetric IsPositiveDefinite)
open ConjugateGradient

variable {n : Nat} {m : Model ℝ n} {radius t : ℝ} {newton : Vector ℝ n}

/-- The step follows the path to its end, or to where it leaves the ball. -/
structure FollowsPath (m : Model ℝ n) (radius : ℝ) : Prop where
  free : m.isStuck radius = false
  regular : (solveLinear m.hessian (-m.gradient)).isRegular = true
  curved : 0 < quadraticForm m.hessian m.gradient
  gains : 0 ≤ m.predictedReduction (dogleg m radius).p
  eq_cut : dogleg m radius = doglegCut m (solveLinear m.hessian (-m.gradient)).x radius

theorem dogleg_cases (m : Model ℝ n) (radius : ℝ) :
    dogleg m radius = cauchyPoint m radius ∨ FollowsPath m radius := by
  cases hstuck : m.isStuck radius with
  | true => exact .inl (by rw [dogleg, cauchyPoint, if_pos hstuck, if_pos hstuck])
  | false =>
      have hdogleg : dogleg m radius = _ := if_neg (by simp [hstuck])
      dsimp only at hdogleg
      split_ifs at hdogleg with hpath hrises
      · exact .inl hdogleg
      · exact .inl hdogleg
      · rw [← hdogleg, Exact.zero_eq, not_lt] at hrises
        simp only [Bool.or_eq_true, Bool.not_eq_true', decide_eq_true_iff, not_or, Exact.zero_eq,
          not_le, Bool.not_eq_false] at hpath
        exact .inr ⟨hstuck, hpath.1.1, hpath.1.2, hrises, hdogleg⟩

section Legs

theorem add_leg (u newton : Vector ℝ n) : u + (1 : ℝ) * (newton - u) = newton := by
  ext i hi
  simp

theorem dot_leg_pos {u : Vector ℝ n} (hu : norm u < radius) (hnewton : radius < norm newton) :
    0 < dot (newton - u) (newton - u) := by
  apply Exact.dot_self_pos
  intro hleg
  have hsame : newton = u := by
    rw [← add_leg u newton, hleg]
    ext i hi
    simp [Exact.zero_eq]
  rw [hsame] at hnewton
  exact lt_asymm hu hnewton

theorem steepestMinimizer_eq (m : Model ℝ n) :
    steepestMinimizer m =
      -((dot m.gradient m.gradient / quadraticForm m.hessian m.gradient) * m.gradient) := by
  rw [steepestMinimizer, Exact.norm_mul_norm, neg_div, Exact.neg_hmul]

theorem hmul_steepestMinimizer (m : Model ℝ n) (t : ℝ) :
    t * steepestMinimizer m =
      -((t * (dot m.gradient m.gradient / quadraticForm m.hessian m.gradient)) * m.gradient) := by
  rw [steepestMinimizer_eq]
  ext i hi
  simp only [Vector.getElem_hmul, Vector.getElem_neg]
  ring

theorem length_firstLeg (hradius : 0 < radius)
    (hcurved : 0 < quadraticForm m.hessian m.gradient)
    (houtside : radius ≤ norm (steepestMinimizer m)) :
    Length m radius (initial m) (radius / norm (steepestMinimizer m) *
      (dot m.gradient m.gradient / quadraticForm m.hessian m.gradient)) := by
  have hself := Exact.dot_self_nonneg m.gradient
  have hnorm := hradius.trans_le houtside
  have hfraction : 0 ≤ radius / norm (steepestMinimizer m) := by positivity
  refine ⟨by positivity, ?_, .inl ?_⟩
  · rw [quadraticForm_initial, mul_assoc, div_mul_cancel₀ _ (ne_of_gt hcurved)]
    exact mul_le_of_le_one_left hself ((div_le_one hnorm).mpr houtside)
  · have halpha : 0 ≤ dot m.gradient m.gradient / quadraticForm m.hessian m.gradient := by
      positivity
    have hlength : norm (steepestMinimizer m) =
        dot m.gradient m.gradient / quadraticForm m.hessian m.gradient * norm m.gradient := by
      rw [steepestMinimizer_eq, Exact.norm_neg, Exact.norm_hmul halpha]
    rw [norm_initial_add_hmul m (by positivity), mul_assoc, ← hlength,
      div_mul_cancel₀ _ (ne_of_gt hnorm)]

/-- The model along the second leg, which ends in a stationary point. -/
theorem predictedReduction_leg (symmetric : IsSymmetric m.hessian)
    (hnewton : mulVec m.hessian newton = -m.gradient) (u : Vector ℝ n) (t : ℝ) :
    m.predictedReduction (u + t * (newton - u)) =
      m.predictedReduction u + t * (1 - t / 2) * quadraticForm m.hessian (newton - u) := by
  have hslope : m.gradient + mulVec m.hessian u = -mulVec m.hessian (newton - u) := by
    rw [Exact.mulVec_sub, hnewton]
    ext i hi
    simp only [Vector.getElem_add, Vector.getElem_neg, Vector.getElem_sub]
    ring
  rw [m.predictedReduction_add_hmul symmetric, hslope, Exact.neg_dot, Exact.dot_comm,
    ← quadraticForm]
  ring

theorem predictedReduction_le_leg (symmetric : IsSymmetric m.hessian)
    (definite : IsPositiveDefinite m.hessian)
    (hnewton : mulVec m.hessian newton = -m.gradient) (u : Vector ℝ n) (ht : 0 ≤ t)
    (hone : t ≤ 1) : m.predictedReduction u ≤ m.predictedReduction (u + t * (newton - u)) := by
  rw [predictedReduction_leg symmetric hnewton]
  have hcurvature := definite.nonneg (newton - u)
  have hgain : 0 ≤ t * (1 - t / 2) := mul_nonneg ht (by linarith)
  exact le_add_of_nonneg_right (mul_nonneg hgain hcurvature)

end Legs

section Boundary

theorem norm_doglegCut_of_onBoundary (hradius : 0 < radius)
    (h : (doglegCut m newton radius).onBoundary = true) :
    norm (doglegCut m newton radius).p = radius := by
  rw [doglegCut] at h ⊢
  dsimp only at h ⊢
  split_ifs at h ⊢ with hfits houtside
  · have hnorm := hradius.trans_le houtside
    rw [Exact.norm_hmul (by positivity), div_mul_cancel₀ _ (ne_of_gt hnorm)]
  · rw [not_le] at hfits houtside
    exact (boundaryTau_spec (le_of_lt houtside) (le_of_lt hradius)
      (dot_leg_pos houtside hfits)).2

theorem norm_dogleg_of_onBoundary (hradius : 0 < radius)
    (h : (dogleg m radius).onBoundary = true) : norm (dogleg m radius).p = radius := by
  rcases dogleg_cases m radius with hcauchy | follows
  · rw [hcauchy] at h ⊢
    exact norm_cauchyPoint_of_onBoundary h
  · rw [follows.eq_cut] at h ⊢
    exact norm_doglegCut_of_onBoundary hradius h

end Boundary

section Gain

theorem predictedReduction_dogleg_nonneg : 0 ≤ m.predictedReduction (dogleg m radius).p := by
  rcases dogleg_cases m radius with hcauchy | follows
  · rw [hcauchy]
    exact predictedReduction_cauchyPoint_nonneg
  · exact follows.gains

theorem predictedReduction_cauchyPoint_le_steepestMinimizer (hfree : m.isStuck radius = false)
    (hcurved : 0 < quadraticForm m.hessian m.gradient) :
    m.predictedReduction (cauchyPoint m radius).p ≤
      m.predictedReduction (steepestMinimizer m) := by
  have length : Length m radius (initial m) _ := length_next (by rwa [quadraticForm_initial])
  have hle := length.predictedReduction_cauchyPoint_le hfree
  rw [quadraticForm_initial, initial_add_hmul] at hle
  rwa [steepestMinimizer_eq]

theorem predictedReduction_cauchyPoint_le_doglegCut (symmetric : IsSymmetric m.hessian)
    (definite : IsPositiveDefinite m.hessian) (hfree : m.isStuck radius = false)
    (hcurved : 0 < quadraticForm m.hessian m.gradient)
    (hnewton : mulVec m.hessian newton = -m.gradient) :
    m.predictedReduction (cauchyPoint m radius).p ≤
      m.predictedReduction (doglegCut m newton radius).p := by
  have hradius := (Model.isStuck_eq_false_iff.mp hfree).2
  have hleg {t : ℝ} := predictedReduction_le_leg (t := t) symmetric definite hnewton
  rw [doglegCut]
  dsimp only
  split_ifs with hfits houtside
  · have hle := hleg (cauchyPoint m radius).p zero_le_one (le_refl 1)
    rwa [add_leg] at hle
  · have hle := (length_firstLeg hradius hcurved houtside).predictedReduction_cauchyPoint_le hfree
    rwa [initial_add_hmul, ← hmul_steepestMinimizer] at hle
  · rw [not_le] at hfits houtside
    have hpos := dot_leg_pos houtside hfits
    obtain ⟨htau, -⟩ := boundaryTau_spec (le_of_lt houtside) (le_of_lt hradius) hpos
    have hpassed : radius ≤
        norm (steepestMinimizer m + (1 : ℝ) * (newton - steepestMinimizer m)) := by
      rw [add_leg]
      exact le_of_lt hfits
    exact (predictedReduction_cauchyPoint_le_steepestMinimizer hfree hcurved).trans
      (hleg (steepestMinimizer m) htau (boundaryTau_le houtside hpos zero_le_one hpassed))

theorem predictedReduction_cauchyPoint_le_dogleg (symmetric : IsSymmetric m.hessian)
    (definite : IsPositiveDefinite m.hessian) :
    m.predictedReduction (cauchyPoint m radius).p ≤ m.predictedReduction (dogleg m radius).p := by
  rcases dogleg_cases m radius with hcauchy | follows
  · rw [hcauchy]
  · rw [follows.eq_cut]
    exact predictedReduction_cauchyPoint_le_doglegCut symmetric definite follows.free
      follows.curved (Exact.mulVec_solveLinear follows.regular)

end Gain

section Newton

theorem mulVec_eq_neg_gradient_iff (definite : IsPositiveDefinite m.hessian)
    (hnewton : mulVec m.hessian newton = -m.gradient) (q : Vector ℝ n) :
    mulVec m.hessian q = -m.gradient ↔ q = newton := by
  constructor
  · intro hq
    have hopposite : mulVec m.hessian q = -mulVec m.hessian (-newton) := by
      rw [hq, ← hnewton, Exact.mulVec_neg]
      ext i hi
      simp
    rw [eq_neg_of_mulVec definite hopposite]
    ext i hi
    simp
  · rintro rfl
    exact hnewton

theorem dogleg_eq_of_fits (definite : IsPositiveDefinite m.hessian) (hradius : 0 < radius)
    (hregular : (solveLinear m.hessian (-m.gradient)).isRegular = true)
    (hfits : norm (solveLinear m.hessian (-m.gradient)).x ≤ radius) :
    (dogleg m radius).p = (solveLinear m.hessian (-m.gradient)).x := by
  by_cases hgradient : m.gradient = zeros
  · have hstuck : m.isStuck radius = true := by
      rw [← Bool.not_eq_false, Model.isStuck_eq_false_iff, hgradient, Exact.norm_zeros]
      exact fun h => lt_irrefl 0 h.1
    rw [dogleg, if_pos hstuck]
    refine (mulVec_eq_neg_gradient_iff definite (Exact.mulVec_solveLinear hregular) zeros).mp ?_
    rw [hgradient, Exact.mulVec_zeros]
    ext i hi
    simp [Exact.zero_eq]
  · rw [dogleg_eq_newton definite hgradient hradius hregular hfits]

end Newton

/-- The dogleg step stays in the ball and does not raise the model. Where the model is convex, the
step gains no less than the Cauchy point, and it is the Newton step if elimination finds that
without replacing a pivot and it fits into the ball. -/
theorem dogleg_does_not_raise (symmetric : IsSymmetric m.hessian) (hradius : 0 < radius) :
    norm (dogleg m radius).p ≤ radius ∧
      ((dogleg m radius).onBoundary = true → norm (dogleg m radius).p = radius) ∧
      0 ≤ m.predictedReduction (dogleg m radius).p ∧
      (IsPositiveDefinite m.hessian →
        m.predictedReduction (cauchyPoint m radius).p ≤
          m.predictedReduction (dogleg m radius).p ∧
        ((solveLinear m.hessian (-m.gradient)).isRegular = true →
          ∃ newton, (∀ q, mulVec m.hessian q = -m.gradient ↔ q = newton) ∧
            (norm newton ≤ radius → (dogleg m radius).p = newton))) := by
  refine ⟨norm_dogleg_le (le_of_lt hradius), norm_dogleg_of_onBoundary hradius,
    predictedReduction_dogleg_nonneg, fun definite => ?_⟩
  refine ⟨predictedReduction_cauchyPoint_le_dogleg symmetric definite, fun hregular => ?_⟩
  exact ⟨_, mulVec_eq_neg_gradient_iff definite (Exact.mulVec_solveLinear hregular),
    dogleg_eq_of_fits definite hradius hregular⟩

section Example

/-- The convex form with a slope along the second coordinate. -/
noncomputable def tiltedModel : Model ℝ 2 where
  gradient := .ofFn ![0.0, 3.0]
  hessian := tilted

theorem isRegular_tiltedModel :
    (solveLinear tiltedModel.hessian (-tiltedModel.gradient)).isRegular = true :=
  isRegular_solveLinear_congr _ isRegular_tilted

theorem mulVec_tiltedModel : mulVec tiltedModel.hessian #v[1, -2] = -tiltedModel.gradient := by
  ext i hi
  interval_cases i <;>
    norm_num [Exact.dot_two, tiltedModel, tilted_eq]

theorem dogleg_does_not_raise_tilted :
    IsSymmetric tiltedModel.hessian ∧ (0 : ℝ) < 3 ∧ IsPositiveDefinite tiltedModel.hessian ∧
      (solveLinear tiltedModel.hessian (-tiltedModel.gradient)).isRegular = true ∧
      (dogleg tiltedModel 3).p = #v[1, -2] ∧
      tiltedModel.predictedReduction (cauchyPoint tiltedModel 3).p ≤
        tiltedModel.predictedReduction (dogleg tiltedModel 3).p := by
  have hfits : norm (#v[1, -2] : Vector ℝ 2) ≤ 3 := by
    rw [Exact.norm_le_iff (by norm_num)]
    norm_num [Exact.dot_two]
  obtain ⟨-, -, -, hconvex⟩ :=
    dogleg_does_not_raise (m := tiltedModel) isSymmetric_tilted (by norm_num : (0 : ℝ) < 3)
  obtain ⟨hcauchy, hnewton⟩ := hconvex isPositiveDefinite_tilted
  obtain ⟨newton, hiff, hstep⟩ := hnewton isRegular_tiltedModel
  obtain rfl := (hiff #v[1, -2]).mp mulVec_tiltedModel
  exact ⟨isSymmetric_tilted, by norm_num, isPositiveDefinite_tilted, isRegular_tiltedModel,
    hstep hfits, hcauchy⟩

end Example

end LocalOptimization.TrustRegion
