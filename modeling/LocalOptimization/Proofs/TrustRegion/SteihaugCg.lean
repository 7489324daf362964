import Mathlib
import LocalOptimization.Proofs.TrustRegion.Cauchy

/-!
# Truncated conjugate gradients and the Cauchy point

As long as the residual does not vanish, neither does the direction, and a step along it that is cut
at the boundary ends there. The first iteration goes as far as the Cauchy point, and the iterations
after it lose nothing.
-/

namespace LocalOptimization.TrustRegion

open Exact (IsSymmetric)

variable {n : Nat} {m : Model ℝ n} {radius tolerance : ℝ}

/-- The flag tells a step to the boundary from one that ends inside the ball. -/
structure Trial.Flagged (trial : Trial ℝ n) (radius : ℝ) : Prop where
  cut : trial.onBoundary = true → norm trial.p = radius
  inside : trial.onBoundary = false → norm trial.p < radius

theorem flagged_toBoundary {z d : Vector ℝ n} (hz : norm z < radius) (hd : 0 < dot d d) :
    (toBoundary z d radius).Flagged radius where
  cut _ := (boundaryTau_spec (le_of_lt hz) ((Exact.norm_nonneg z).trans (le_of_lt hz)) hd).2
  inside h := by cases h

theorem flagged_of_lt {p : Vector ℝ n} (hp : norm p < radius) :
    ({ p, onBoundary := false } : Trial ℝ n).Flagged radius where
  cut h := by cases h
  inside _ := hp

theorem steihaugTolerance_eq (g : Vector ℝ n) :
    steihaugTolerance g = min (1 / 2) (√(norm g)) * norm g := by
  rw [steihaugTolerance, Exact.min_eq, Exact.half_eq, min_comm]
  rfl

theorem steihaugTolerance_pos {g : Vector ℝ n} (h : 0 < norm g) : 0 < steihaugTolerance g := by
  rw [steihaugTolerance_eq]
  exact mul_pos (lt_min (by norm_num) (Real.sqrt_pos.mpr h)) h

theorem steihaugTolerance_le (g : Vector ℝ n) : steihaugTolerance g ≤ norm g / 2 := by
  rw [steihaugTolerance_eq]
  have hle := mul_le_mul_of_nonneg_right (min_le_left (1 / 2) (√(norm g))) (Exact.norm_nonneg g)
  linarith

namespace ConjugateGradient

variable {s : ConjugateGradient ℝ n}

theorem Sound.dot_direction_pos (sound : s.Sound m) (hr : 0 < dot s.r s.r) : 0 < dot s.d s.d := by
  apply Exact.dot_self_pos
  intro hd
  have hslope := sound.slope
  rw [hd, Exact.dot_zeros] at hslope
  linarith

theorem dot_residual_pos (htolerance : 0 < tolerance) (hlarge : tolerance ≤ norm s.r) :
    0 < dot s.r s.r :=
  Exact.norm_mul_norm s.r ▸ mul_self_pos.mpr (htolerance.trans_le hlarge).ne'

theorem flagged_iterate (htolerance : 0 < tolerance) (budget : Nat) (sound : s.Sound m)
    (hr : 0 < dot s.r s.r) (hs : norm s.z < radius) :
    (iterate m.hessian radius tolerance budget s).Flagged radius := by
  induction budget generalizing s with
  | zero => exact flagged_of_lt hs
  | succ budget ih =>
      have hd := sound.dot_direction_pos hr
      rw [iterate_succ, Exact.zero_eq]
      split_ifs with hcurvature houtside hsmall
      · exact flagged_toBoundary hs hd
      · exact flagged_of_lt (not_le.mp houtside)
      · have hresidual := dot_residual_pos htolerance (not_lt.mp hsmall)
        exact ih (sound.next hcurvature) hresidual (not_le.mp houtside)
      · exact flagged_toBoundary hs hd

end ConjugateGradient

open ConjugateGradient

theorem flagged_steihaugCg (hradius : 0 < radius) : (steihaugCg m radius).Flagged radius := by
  have hzeros : norm (zeros : Vector ℝ n) < radius := Exact.norm_zeros.trans_lt hradius
  cases hstuck : m.isStuck radius with
  | true =>
      rw [steihaugCg, if_pos hstuck]
      exact flagged_of_lt hzeros
  | false =>
      have hnorm := (Model.isStuck_eq_false_iff.mp hstuck).1
      have hresidual : 0 < dot (initial m).r (initial m).r := dot_residual_pos hnorm (le_refl _)
      rw [steihaugCg_eq hstuck]
      exact flagged_iterate (steihaugTolerance_pos hnorm) n (sound_initial m) hresidual hzeros

theorem predictedReduction_cauchyPoint_le_steihaugCg (symmetric : IsSymmetric m.hessian) :
    m.predictedReduction (cauchyPoint m radius).p ≤
      m.predictedReduction (steihaugCg m radius).p := by
  cases hstuck : m.isStuck radius with
  | true => rw [cauchyPoint, steihaugCg, if_pos hstuck, if_pos hstuck]
  | false =>
      obtain ⟨t, length, hle⟩ := exists_length_le_steihaugCg symmetric hstuck
      exact (length.predictedReduction_cauchyPoint_le hstuck).trans hle

/-- The step of truncated conjugate gradients stays in the ball, its flag is right, and it gains no
less than the Cauchy point, for models of any curvature. -/
theorem steihaugCg_no_worse_than_cauchyPoint (symmetric : IsSymmetric m.hessian)
    (hradius : 0 < radius) :
    norm (steihaugCg m radius).p ≤ radius ∧
      ((steihaugCg m radius).onBoundary = true → norm (steihaugCg m radius).p = radius) ∧
      ((steihaugCg m radius).onBoundary = false → norm (steihaugCg m radius).p < radius) ∧
      m.predictedReduction (cauchyPoint m radius).p ≤
        m.predictedReduction (steihaugCg m radius).p ∧
      0 ≤ m.predictedReduction (cauchyPoint m radius).p := by
  have flagged := flagged_steihaugCg (m := m) hradius
  exact ⟨norm_steihaugCg_le (le_of_lt hradius), flagged.cut, flagged.inside,
    predictedReduction_cauchyPoint_le_steihaugCg symmetric,
    predictedReduction_cauchyPoint_nonneg⟩

section Example

theorem next_eq {h : Matrix ℝ n} {s : ConjugateGradient ℝ n} {curvature square : ℝ}
    {z r d : Vector ℝ n} (hcurvature : quadraticForm h s.d = curvature)
    (hsquare : dot s.r s.r = square) (hz : s.z + (square / curvature) * s.d = z)
    (hr : s.r + (square / curvature) * mulVec h s.d = r)
    (hd : -r + (dot r r / square) * s.d = d) : next h s = { z, r, d } := by
  subst hcurvature hsquare hz hr hd
  rfl

theorem curvature_saddle : quadraticForm saddle.hessian (initial saddle).d = 1 := by
  norm_num [quadraticForm, Exact.dot_two, saddle, initial]

theorem next_saddle :
    next saddle.hessian (initial saddle) =
      { z := #v[-2, -2], r := #v[-3, 3], d := #v[-6, -12] } := by
  have hsquare : dot (initial saddle).r (initial saddle).r = 2 := by
    norm_num [Exact.dot_two, saddle, initial]
  apply next_eq curvature_saddle hsquare
  all_goals
    ext i hi
    interval_cases i <;> norm_num [Exact.dot_two, saddle, initial]

theorem steihaugCg_saddle : steihaugCg saddle 3 = toBoundary #v[-2, -2] #v[-6, -12] 3 := by
  have hfree := Model.isStuck_of_ne_zeros saddle_gradient_ne_zeros (by norm_num : (0 : ℝ) < 3)
  have hinside : ¬ 3 ≤ norm (#v[-2, -2] : Vector ℝ 2) := by
    rw [not_le, Exact.norm_lt_iff (by norm_num)]
    norm_num [Exact.dot_two]
  have hlarge : ¬ norm (#v[-3, 3] : Vector ℝ 2) < steihaugTolerance saddle.gradient := by
    have hgradient : norm saddle.gradient ≤ 2 := by
      rw [Exact.norm_le_iff (by norm_num)]
      norm_num [Exact.dot_two, saddle]
    have hresidual : ¬ norm (#v[-3, 3] : Vector ℝ 2) < 1 := by
      rw [Exact.norm_lt_iff (by norm_num)]
      norm_num [Exact.dot_two]
    linarith [steihaugTolerance_le saddle.gradient]
  have hflat : ¬ 0 < quadraticForm saddle.hessian #v[-6, -12] := by
    norm_num [quadraticForm, Exact.dot_two, saddle]
  rw [steihaugCg_eq hfree, iterate_succ, curvature_saddle, next_saddle, Exact.zero_eq,
    if_pos one_pos, if_neg hinside, if_neg hlarge, iterate_succ, Exact.zero_eq, if_neg hflat]

theorem steihaugCg_no_worse_than_cauchyPoint_saddle :
    IsSymmetric saddle.hessian ∧ (0 : ℝ) < 3 ∧ (steihaugCg saddle 3).onBoundary = true ∧
      norm (steihaugCg saddle 3).p = 3 ∧
      0 ≤ saddle.predictedReduction (cauchyPoint saddle 3).p ∧
      saddle.predictedReduction (cauchyPoint saddle 3).p ≤
        saddle.predictedReduction (steihaugCg saddle 3).p := by
  have hcut : (steihaugCg saddle 3).onBoundary = true := by
    rw [steihaugCg_saddle]
    rfl
  obtain ⟨-, hnorm, -, hle, hnonneg⟩ :=
    steihaugCg_no_worse_than_cauchyPoint isSymmetric_saddle (by norm_num : (0 : ℝ) < 3)
  exact ⟨isSymmetric_saddle, by norm_num, hcut, hnorm hcut, hnonneg, hle⟩

end Example

end LocalOptimization.TrustRegion
