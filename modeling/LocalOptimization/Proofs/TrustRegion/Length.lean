import Mathlib
import LocalOptimization.Proofs.TrustRegion.Boundary
import LocalOptimization.TrustRegion.Subproblem

/-!
# Steps stay in the ball

In exact arithmetic no minimizer of the model proposes a step that is longer than the radius, and a
step that is cut at the boundary is as long as the radius.
-/

namespace LocalOptimization.TrustRegion

variable {n : Nat} {m : Model ℝ n} {radius : ℝ}

theorem Model.isStuck_eq_false_iff :
    m.isStuck radius = false ↔ 0 < norm m.gradient ∧ 0 < radius := by
  have hnorm := Exact.norm_nonneg m.gradient
  rw [isStuck, Scalar.isZero, Bool.or_eq_false_iff, decide_eq_false_iff_not, Exact.zero_eq,
    decide_eq_true hnorm, Bool.and_true, decide_eq_false_iff_not, not_le, not_le]

theorem Model.isStuck_of_ne_zeros (hgradient : m.gradient ≠ zeros) (hradius : 0 < radius) :
    m.isStuck radius = false :=
  isStuck_eq_false_iff.mpr ⟨Exact.norm_pos hgradient, hradius⟩

theorem norm_zero : norm (Trial.zero : Trial ℝ n).p = 0 :=
  Exact.norm_zeros

section Cauchy

theorem cauchyFraction_nonneg (hradius : 0 ≤ radius) : 0 ≤ cauchyFraction m radius := by
  have hnorm := Exact.norm_nonneg m.gradient
  rw [cauchyFraction, Exact.zero_eq, Exact.one_eq]
  split
  · next hcurved =>
      rw [Exact.min_eq]
      exact le_min (by positivity) zero_le_one
  · exact zero_le_one

theorem cauchyFraction_le_one : cauchyFraction m radius ≤ 1 := by
  rw [cauchyFraction, Exact.one_eq]
  split
  · rw [Exact.min_eq]
    exact min_le_right _ _
  · exact le_refl 1

theorem cauchyPoint_eq (hfree : m.isStuck radius = false) :
    (cauchyPoint m radius).p =
      -((cauchyFraction m radius * radius / norm m.gradient) * m.gradient) := by
  rw [cauchyPoint, if_neg (by simp [hfree])]
  dsimp only
  rw [neg_mul, neg_div, Exact.neg_hmul]

theorem norm_cauchyPoint (hfree : m.isStuck radius = false) :
    norm (cauchyPoint m radius).p = cauchyFraction m radius * radius := by
  obtain ⟨hnorm, hradius⟩ := Model.isStuck_eq_false_iff.mp hfree
  have hfraction := cauchyFraction_nonneg (m := m) (le_of_lt hradius)
  rw [cauchyPoint_eq hfree, Exact.norm_neg, Exact.norm_hmul (by positivity),
    div_mul_cancel₀ _ (ne_of_gt hnorm)]

theorem norm_cauchyPoint_le (hradius : 0 ≤ radius) : norm (cauchyPoint m radius).p ≤ radius := by
  cases hstuck : m.isStuck radius with
  | true =>
      rw [cauchyPoint, if_pos hstuck, norm_zero]
      exact hradius
  | false =>
      rw [norm_cauchyPoint hstuck]
      exact mul_le_of_le_one_left hradius cauchyFraction_le_one

theorem norm_cauchyPoint_of_onBoundary (h : (cauchyPoint m radius).onBoundary = true) :
    norm (cauchyPoint m radius).p = radius := by
  cases hstuck : m.isStuck radius with
  | true =>
      rw [cauchyPoint, if_pos hstuck] at h
      cases h
  | false =>
      have hcut : 1 ≤ cauchyFraction m radius := by
        rw [cauchyPoint, if_neg (by simp [hstuck])] at h
        exact Exact.one_eq ▸ of_decide_eq_true h
      rw [norm_cauchyPoint hstuck, le_antisymm cauchyFraction_le_one hcut, one_mul]

end Cauchy

section Boundary

variable {z d : Vector ℝ n}

theorem norm_toBoundary_le (hz : norm z ≤ radius) (hradius : 0 ≤ radius) :
    norm (toBoundary z d radius).p ≤ radius := by
  rcases (Exact.dot_self_nonneg d).eq_or_lt with hzero | hpos
  · have hstill : z + boundaryTau z d radius * d = z := by
      rw [boundaryTau_of_dot_self_eq_zero hzero.symm]
      ext i hi
      simp
    rw [toBoundary, hstill]
    exact hz
  · exact le_of_eq (boundaryTau_spec hz hradius hpos).2

end Boundary

section Dogleg

theorem norm_doglegCut_le (newton : Vector ℝ n) (hradius : 0 ≤ radius) :
    norm (doglegCut m newton radius).p ≤ radius := by
  rw [doglegCut]
  split
  · next hnewton => exact hnewton
  · dsimp only
    split
    · next houtside =>
        have hnorm : 0 ≤ norm (steepestMinimizer m) := Exact.norm_nonneg _
        rw [Exact.norm_hmul (div_nonneg hradius hnorm), div_mul_eq_mul_div, mul_div_assoc]
        exact mul_le_of_le_one_right hradius (div_self_le_one _)
    · next hinside =>
        exact norm_toBoundary_le (le_of_lt (not_le.mp hinside)) hradius

theorem norm_dogleg_le (hradius : 0 ≤ radius) : norm (dogleg m radius).p ≤ radius := by
  rw [dogleg]
  split
  · rw [norm_zero]
    exact hradius
  · dsimp only
    split
    · exact norm_cauchyPoint_le hradius
    · split
      · exact norm_cauchyPoint_le hradius
      · exact norm_doglegCut_le _ hradius

end Dogleg

section SteihaugCg

theorem norm_iterate_le {h : Matrix ℝ n} {tolerance : ℝ} {budget : Nat}
    {s : ConjugateGradient ℝ n} (hs : norm s.z < radius) :
    norm (ConjugateGradient.iterate h radius tolerance budget s).p ≤ radius := by
  have hradius : 0 ≤ radius := (Exact.norm_nonneg s.z).trans (le_of_lt hs)
  induction budget generalizing s with
  | zero => exact le_of_lt hs
  | succ budget ih =>
      rw [ConjugateGradient.iterate]
      dsimp only
      split
      · split
        · exact norm_toBoundary_le (le_of_lt hs) hradius
        · next hinside =>
            split
            · exact le_of_lt (not_le.mp hinside)
            · exact ih (not_le.mp hinside)
      · exact norm_toBoundary_le (le_of_lt hs) hradius

theorem norm_steihaugCg_le (hradius : 0 ≤ radius) : norm (steihaugCg m radius).p ≤ radius := by
  rw [steihaugCg]
  split
  · rw [norm_zero]
    exact hradius
  · next hfree =>
      obtain ⟨-, hpos⟩ := Model.isStuck_eq_false_iff.mp (Bool.eq_false_iff.mpr hfree)
      have hzeros : norm (zeros : Vector ℝ n) < radius := norm_zero.trans_lt hpos
      exact norm_iterate_le hzeros

end SteihaugCg

theorem Subproblem.norm_solve_le (s : Subproblem) (m : Model ℝ n) (hradius : 0 ≤ radius) :
    norm (s.solve m radius).p ≤ radius := by
  cases s with
  | cauchy => exact norm_cauchyPoint_le hradius
  | dogleg => exact norm_dogleg_le hradius
  | steihaugCg => exact norm_steihaugCg_le hradius

end LocalOptimization.TrustRegion
