import Mathlib
import LocalOptimization.Proofs.TrustRegion.Decrease

/-!
# The best step along steepest descent

Along the negative gradient the model is a parabola. A step that goes on to its vertex, or to the
boundary if that comes first, gains as much as any step on that ray inside the ball.
-/

namespace LocalOptimization.TrustRegion

open Exact (IsSymmetric)
open ConjugateGradient

variable {n : Nat} {m : Model ℝ n} {radius s t : ℝ}

theorem Model.predictedReduction_neg_hmul_gradient (t : ℝ) :
    m.predictedReduction (-(t * m.gradient)) =
      t * dot m.gradient m.gradient - t * t / 2 * quadraticForm m.hessian m.gradient := by
  rw [predictedReduction, Exact.half_eq, Exact.quadraticForm_neg, Exact.quadraticForm_hmul,
    Exact.dot_neg, Exact.dot_hmul]
  ring

namespace ConjugateGradient

theorem Length.predictedReduction_le (length : Length m radius (initial m) t)
    (hgradient : 0 < norm m.gradient) (hs : 0 ≤ s) (hfits : norm (s * m.gradient) ≤ radius) :
    m.predictedReduction (-(s * m.gradient)) ≤
      m.predictedReduction ((initial m).z + t * (initial m).d) := by
  have hpos : 0 < dot m.gradient m.gradient := Exact.norm_mul_norm m.gradient ▸ by positivity
  have hstops : t * quadraticForm m.hessian m.gradient ≤ dot m.gradient m.gradient :=
    quadraticForm_initial m ▸ length.curvature
  have ht := length.nonneg
  rw [initial_add_hmul, m.predictedReduction_neg_hmul_gradient,
    m.predictedReduction_neg_hmul_gradient]
  rcases length.reaches with hboundary | hzero | ⟨hcurved, hvertex⟩
  · -- The boundary comes before the vertex, and the parabola rises up to there.
    have hshort : s ≤ t := by
      rw [Exact.norm_hmul hs, ← hboundary, norm_initial_add_hmul m ht] at hfits
      exact le_of_mul_le_mul_right hfits hgradient
    have hbefore : s * quadraticForm m.hessian m.gradient ≤ dot m.gradient m.gradient := by
      rcases le_total 0 (quadraticForm m.hessian m.gradient) with hup | hdown
      · exact (mul_le_mul_of_nonneg_right hshort hup).trans hstops
      · exact (mul_nonpos_of_nonneg_of_nonpos hs hdown).trans (le_of_lt hpos)
    have hgain := mul_nonneg (sub_nonneg.mpr hshort)
      (add_nonneg (sub_nonneg.mpr hstops) (sub_nonneg.mpr hbefore))
    linarith
  · exact absurd (dot_initial m ▸ hzero) (ne_of_gt hpos)
  · -- The step ends at the vertex.
    rw [quadraticForm_initial] at hcurved hvertex
    have hslope : dot m.gradient m.gradient = t * quadraticForm m.hessian m.gradient := by
      rw [hvertex]
      exact (div_mul_cancel₀ _ (ne_of_gt hcurved)).symm
    have hgain := mul_nonneg (le_of_lt hcurved) (mul_self_nonneg (t - s))
    rw [hslope]
    linarith

end ConjugateGradient

theorem exists_cauchyPoint_eq (hfree : m.isStuck radius = false) :
    ∃ t : ℝ, 0 ≤ t ∧ (cauchyPoint m radius).p = -(t * m.gradient) := by
  obtain ⟨hnorm, hradius⟩ := Model.isStuck_eq_false_iff.mp hfree
  have hfraction := cauchyFraction_nonneg (m := m) (le_of_lt hradius)
  exact ⟨_, by positivity, cauchyPoint_eq hfree⟩

theorem ConjugateGradient.Length.predictedReduction_cauchyPoint_le
    (length : Length m radius (initial m) t) (hfree : m.isStuck radius = false) :
    m.predictedReduction (cauchyPoint m radius).p ≤
      m.predictedReduction ((initial m).z + t * (initial m).d) := by
  obtain ⟨hgradient, hradius⟩ := Model.isStuck_eq_false_iff.mp hfree
  obtain ⟨s, hs, hp⟩ := exists_cauchyPoint_eq hfree
  have hfits := norm_cauchyPoint_le (m := m) (le_of_lt hradius)
  rw [hp, Exact.norm_neg] at hfits
  rw [hp]
  exact length.predictedReduction_le hgradient hs hfits

theorem predictedReduction_cauchyPoint_nonneg :
    0 ≤ m.predictedReduction (cauchyPoint m radius).p := by
  cases hstuck : m.isStuck radius with
  | true =>
      rw [cauchyPoint, if_pos hstuck]
      exact le_of_eq m.predictedReduction_zeros.symm
  | false =>
      obtain ⟨hgradient, hradius⟩ := Model.isStuck_eq_false_iff.mp hstuck
      obtain ⟨t, length, hp⟩ := exists_length_cauchyPoint hstuck
      have hfits : norm ((0 : ℝ) * m.gradient) ≤ radius := by
        rw [Exact.zero_hmul, Exact.norm_zeros]
        exact le_of_lt hradius
      have hgain := length.predictedReduction_le hgradient (le_refl 0) hfits
      rw [m.predictedReduction_neg_hmul_gradient, ← hp] at hgain
      simpa using hgain

/-- The Cauchy point is the best step along steepest descent inside the ball, and where the
curvature is bounded it gains at least what the bound allows. -/
theorem cauchyPoint_isBest (hgradient : m.gradient ≠ zeros) (symmetric : IsSymmetric m.hessian)
    (hradius : 0 < radius) :
    (∃ t : ℝ, 0 ≤ t ∧ (cauchyPoint m radius).p = -(t * m.gradient)) ∧
      norm (cauchyPoint m radius).p ≤ radius ∧
      ((cauchyPoint m radius).onBoundary = true → norm (cauchyPoint m radius).p = radius) ∧
      (∀ t : ℝ, 0 ≤ t → norm (t * m.gradient) ≤ radius →
        m.predictedReduction (-(t * m.gradient)) ≤
          m.predictedReduction (cauchyPoint m radius).p) ∧
      ∀ beta, 0 < beta → m.CurvesAtMost beta →
        norm m.gradient / 2 * min radius (norm m.gradient / beta) ≤
          m.predictedReduction (cauchyPoint m radius).p := by
  have hfree := Model.isStuck_of_ne_zeros hgradient hradius
  refine ⟨exists_cauchyPoint_eq hfree, norm_cauchyPoint_le (le_of_lt hradius),
    norm_cauchyPoint_of_onBoundary, ?_, ?_⟩
  · intro t ht hfits
    obtain ⟨reached, length, hp⟩ := exists_length_cauchyPoint hfree
    rw [hp]
    exact length.predictedReduction_le (Exact.norm_pos hgradient) ht hfits
  · intro beta hbeta curves
    have hdecrease := sufficientDecrease_le_cauchyPoint symmetric curves hbeta hfree
    rw [Model.sufficientDecrease] at hdecrease
    linarith

section Example

/-- The model `x + y + x² - y²/2`. -/
noncomputable def saddle : Model ℝ 2 where
  gradient := .ofFn ![1.0, 1.0]
  hessian := .ofFn ![.ofFn ![2.0, 0.0], .ofFn ![0.0, -1.0]]

theorem saddle_gradient_ne_zeros : saddle.gradient ≠ zeros := by
  intro h
  have hentry : saddle.gradient[0] = (zeros : Vector ℝ 2)[0] := by rw [h]
  norm_num [saddle] at hentry

theorem isSymmetric_saddle : IsSymmetric saddle.hessian := by
  intro i j
  fin_cases i <;> fin_cases j <;> rfl

theorem curvesAtMost_saddle : saddle.CurvesAtMost 2 := by
  intro v
  have hform : quadraticForm saddle.hessian v = (2 : ℝ) * (v[0] * v[0]) - v[1] * v[1] := by
    norm_num [quadraticForm, Exact.dot_two, saddle]
    ring
  have hdot : dot v v = v[0] * v[0] + v[1] * v[1] := Exact.dot_two v v
  rw [hform, hdot]
  linarith [mul_self_nonneg v[1]]

theorem cauchyPoint_isBest_saddle :
    saddle.gradient ≠ zeros ∧ IsSymmetric saddle.hessian ∧ (0 : ℝ) < 3 ∧ saddle.CurvesAtMost 2 ∧
      norm (cauchyPoint saddle 3).p ≤ 3 ∧
      2 ≤ saddle.predictedReduction (cauchyPoint saddle 3).p ∧
      norm saddle.gradient / 2 * min 3 (norm saddle.gradient / 2) ≤
        saddle.predictedReduction (cauchyPoint saddle 3).p := by
  have hfits : norm ((2 : ℝ) * saddle.gradient) ≤ 3 := by
    rw [Exact.norm_le_iff (by norm_num)]
    norm_num [Exact.dot_two, saddle]
  have hvertex : saddle.predictedReduction (-((2 : ℝ) * saddle.gradient)) = 2 := by
    rw [saddle.predictedReduction_neg_hmul_gradient]
    norm_num [quadraticForm, Exact.dot_two, saddle]
  obtain ⟨-, hle, -, hbest, hdecrease⟩ :=
    cauchyPoint_isBest saddle_gradient_ne_zeros isSymmetric_saddle (by norm_num : (0 : ℝ) < 3)
  exact ⟨saddle_gradient_ne_zeros, isSymmetric_saddle, by norm_num, curvesAtMost_saddle, hle,
    hvertex ▸ hbest 2 (by norm_num) hfits, hdecrease 2 (by norm_num) curvesAtMost_saddle⟩

end Example

end LocalOptimization.TrustRegion
