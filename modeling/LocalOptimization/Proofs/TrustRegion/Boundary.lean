import Mathlib
import LocalOptimization.Proofs.Exact
import LocalOptimization.TrustRegion.Model

/-!
# Where a ray leaves the ball

The squared distance from the centre is a quadratic function along a ray. From a point of the ball,
the larger root leads to the boundary, and it is the last multiple of the direction that does not
lead out of the ball.
-/

namespace LocalOptimization.TrustRegion

variable {n : Nat} {radius : ℝ} {z d : Vector ℝ n}

theorem boundaryTau_eq :
    boundaryTau z d radius =
      (-(2 * dot z d) + √(max (discrim (dot d d) (2 * dot z d) (dot z z - radius * radius)) 0))
        / (2 * dot d d) := by
  have hfour : (4.0 : ℝ) = 4 := by norm_num
  rw [boundaryTau, Exact.two_eq, hfour, Exact.zero_eq, Exact.max_eq, discrim, sq]
  rfl

theorem dot_self_add_hmul (z d : Vector ℝ n) (t : ℝ) :
    dot (z + t * d) (z + t * d) = dot d d * (t * t) + 2 * dot z d * t + dot z z := by
  rw [Exact.dot_self_add, Exact.dot_hmul, Exact.dot_hmul, Exact.hmul_dot]
  ring

theorem boundaryTau_of_dot_self_eq_zero (hd : dot d d = 0) : boundaryTau z d radius = 0 := by
  rw [boundaryTau_eq, hd, mul_zero, div_zero]

section Root

theorem dot_self_mul_sub_nonneg (d : Vector ℝ n) (hz : norm z ≤ radius) (hradius : 0 ≤ radius) :
    0 ≤ dot d d * (radius * radius - dot z z) :=
  mul_nonneg (Exact.dot_self_nonneg d) (sub_nonneg.mpr ((Exact.norm_le_iff hradius).mp hz))

theorem abs_le_sqrt_discrim (hz : norm z ≤ radius) (hradius : 0 ≤ radius) :
    |2 * dot z d| ≤ √(discrim (dot d d) (2 * dot z d) (dot z z - radius * radius)) := by
  apply Real.abs_le_sqrt
  rw [discrim]
  linarith [dot_self_mul_sub_nonneg d hz hradius]

theorem abs_lt_sqrt_discrim (hz : norm z < radius) (hd : 0 < dot d d) :
    |2 * dot z d| < √(discrim (dot d d) (2 * dot z d) (dot z z - radius * radius)) := by
  have hradius : 0 ≤ radius := (Exact.norm_nonneg z).trans hz.le
  have hinside := sub_pos.mpr ((Exact.norm_lt_iff hradius).mp hz)
  have hproduct := mul_pos hd hinside
  rw [Real.lt_sqrt (abs_nonneg _), sq_abs, discrim]
  linarith

theorem discrim_nonneg (hz : norm z ≤ radius) (hradius : 0 ≤ radius) :
    0 ≤ discrim (dot d d) (2 * dot z d) (dot z z - radius * radius) := by
  rw [discrim]
  linarith [sq_nonneg (2 * dot z d), dot_self_mul_sub_nonneg d hz hradius]

theorem boundaryTau_eq_root (hz : norm z ≤ radius) (hradius : 0 ≤ radius) :
    boundaryTau z d radius =
      (-(2 * dot z d) + √(discrim (dot d d) (2 * dot z d) (dot z z - radius * radius)))
        / (2 * dot d d) := by
  rw [boundaryTau_eq, max_eq_left (discrim_nonneg hz hradius)]

theorem boundaryTau_spec (hz : norm z ≤ radius) (hradius : 0 ≤ radius) (hd : 0 < dot d d) :
    0 ≤ boundaryTau z d radius ∧ norm (z + boundaryTau z d radius * d) = radius := by
  have htau := boundaryTau_eq_root (d := d) hz hradius
  constructor
  · have hroot := abs_le_sqrt_discrim (d := d) hz hradius
    rw [htau]
    exact div_nonneg (by linarith [le_abs_self (2 * dot z d)]) (by positivity)
  · have hzero := (quadratic_eq_zero_iff (ne_of_gt hd)
      (Real.mul_self_sqrt (discrim_nonneg hz hradius)).symm
      (boundaryTau z d radius)).mpr (.inl htau)
    apply le_antisymm
    · rw [Exact.norm_le_iff hradius, dot_self_add_hmul]
      linarith
    · rw [← not_lt, Exact.norm_lt_iff hradius, dot_self_add_hmul]
      linarith

theorem boundaryTau_pos (hz : norm z < radius) (hd : 0 < dot d d) :
    0 < boundaryTau z d radius := by
  have hradius : 0 ≤ radius := (Exact.norm_nonneg z).trans hz.le
  have hroot := abs_lt_sqrt_discrim hz hd
  rw [boundaryTau_eq_root hz.le hradius]
  exact div_pos (by linarith [le_abs_self (2 * dot z d)]) (by positivity)

end Root

section Passage

theorem slope_eq (hz : norm z ≤ radius) (hradius : 0 ≤ radius) (hd : 0 < dot d d) :
    dot d d * boundaryTau z d radius + 2 * dot z d =
      (2 * dot z d + √(discrim (dot d d) (2 * dot z d) (dot z z - radius * radius))) / 2 := by
  rw [boundaryTau_eq_root hz hradius]
  field_simp
  ring

theorem slope_nonneg (hz : norm z ≤ radius) (hradius : 0 ≤ radius) (hd : 0 < dot d d) :
    0 ≤ dot d d * boundaryTau z d radius + 2 * dot z d := by
  have hroot := abs_le_sqrt_discrim (d := d) hz hradius
  rw [slope_eq hz hradius hd]
  linarith [neg_abs_le (2 * dot z d)]

theorem slope_pos (hz : norm z < radius) (hd : 0 < dot d d) :
    0 < dot d d * boundaryTau z d radius + 2 * dot z d := by
  have hradius : 0 ≤ radius := (Exact.norm_nonneg z).trans hz.le
  have hroot := abs_lt_sqrt_discrim hz hd
  rw [slope_eq hz.le hradius hd]
  linarith [neg_abs_le (2 * dot z d)]

/-- How far a multiple of the direction leads beyond the boundary. -/
theorem dot_self_sub_eq_mul (hz : norm z ≤ radius) (hradius : 0 ≤ radius) (hd : 0 < dot d d)
    (t : ℝ) :
    dot (z + t * d) (z + t * d) - radius * radius =
      (t - boundaryTau z d radius) * (dot d d * (t + boundaryTau z d radius) + 2 * dot z d) := by
  have hroot := Exact.norm_mul_norm (z + boundaryTau z d radius * d)
  rw [(boundaryTau_spec hz hradius hd).2, dot_self_add_hmul] at hroot
  rw [dot_self_add_hmul, hroot]
  ring

theorem norm_le_of_le_boundaryTau (hz : norm z ≤ radius) (hradius : 0 ≤ radius) (hd : 0 < dot d d)
    {t : ℝ} (ht : 0 ≤ t) (hle : t ≤ boundaryTau z d radius) : norm (z + t * d) ≤ radius := by
  have hslope := slope_nonneg hz hradius hd
  have hfactor : 0 ≤ dot d d * (t + boundaryTau z d radius) + 2 * dot z d := by
    linarith [mul_nonneg hd.le ht]
  have hproduct := mul_nonpos_of_nonpos_of_nonneg (sub_nonpos.mpr hle) hfactor
  rw [← dot_self_sub_eq_mul hz hradius hd, sub_nonpos] at hproduct
  exact (Exact.norm_le_iff hradius).mpr hproduct

theorem lt_norm_of_boundaryTau_lt (hz : norm z ≤ radius) (hradius : 0 ≤ radius)
    (hd : 0 < dot d d) {t : ℝ} (hlt : boundaryTau z d radius < t) : radius < norm (z + t * d) := by
  have hslope := slope_nonneg hz hradius hd
  have hfactor : 0 < dot d d * (t + boundaryTau z d radius) + 2 * dot z d := by
    have ht : 0 < t := (boundaryTau_spec hz hradius hd).1.trans_lt hlt
    linarith [mul_pos hd ht]
  have hproduct := mul_pos (sub_pos.mpr hlt) hfactor
  rw [← dot_self_sub_eq_mul hz hradius hd, sub_pos] at hproduct
  rw [← not_le, Exact.norm_le_iff hradius, not_le]
  exact hproduct

theorem boundaryTau_le {alpha : ℝ} (hz : norm z < radius) (hd : 0 < dot d d) (halpha : 0 ≤ alpha)
    (houtside : radius ≤ norm (z + alpha * d)) : boundaryTau z d radius ≤ alpha := by
  have hradius : 0 ≤ radius := (Exact.norm_nonneg z).trans hz.le
  have hslope := slope_pos hz hd
  by_contra! hlt
  have hfactor : 0 < dot d d * (alpha + boundaryTau z d radius) + 2 * dot z d := by
    linarith [mul_nonneg hd.le halpha]
  have hproduct := mul_neg_of_neg_of_pos (sub_neg.mpr hlt) hfactor
  rw [← dot_self_sub_eq_mul hz.le hradius hd, sub_neg, ← Exact.norm_lt_iff hradius] at hproduct
  exact absurd houtside (not_le.mpr hproduct)

end Passage

/-- A ray from a point of the ball meets the boundary at `τ`, stays in the ball until then and
outside it ever after. Under the root stands no negative number that would have to be replaced. -/
theorem ray_leaves_at_boundaryTau (hz : norm z ≤ radius) (hradius : 0 < radius) (hd : d ≠ zeros) :
    0 ≤ boundaryTau z d radius ∧
      (norm z < radius → 0 < boundaryTau z d radius) ∧
      norm (z + boundaryTau z d radius * d) = radius ∧
      (∀ t, 0 ≤ t → t ≤ boundaryTau z d radius → norm (z + t * d) ≤ radius) ∧
      (∀ t, boundaryTau z d radius < t → radius < norm (z + t * d)) ∧
      0 ≤ discrim (dot d d) (2 * dot z d) (dot z z - radius * radius) ∧
      boundaryTau z d radius =
        (-(2 * dot z d) + √(discrim (dot d d) (2 * dot z d) (dot z z - radius * radius)))
          / (2 * dot d d) := by
  have hpos := Exact.dot_self_pos hd
  obtain ⟨hnonneg, hroot⟩ := boundaryTau_spec hz hradius.le hpos
  refine ⟨hnonneg, fun hinside => boundaryTau_pos hinside hpos, hroot, ?_, ?_,
    discrim_nonneg hz hradius.le, boundaryTau_eq_root hz hradius.le⟩
  · intro t ht hle
    exact norm_le_of_le_boundaryTau hz hradius.le hpos ht hle
  · intro t hlt
    exact lt_norm_of_boundaryTau_lt hz hradius.le hpos hlt

section Example

/-- A point on the boundary of the ball of radius 5. -/
noncomputable def chordStart : Vector ℝ 2 :=
  .ofFn ![0.0, 5.0]

/-- A direction from there through the ball. -/
noncomputable def chordDirection : Vector ℝ 2 :=
  .ofFn ![2.0, -4.0]

theorem ray_leaves_at_boundaryTau_chord :
    norm chordStart ≤ 5 ∧ (0 : ℝ) < 5 ∧ chordDirection ≠ zeros ∧
      boundaryTau chordStart chordDirection 5 = 2 ∧
      norm (chordStart + (1 : ℝ) * chordDirection) ≤ 5 ∧
      5 < norm (chordStart + (3 : ℝ) * chordDirection) := by
  have hz : norm chordStart ≤ 5 := by
    rw [Exact.norm_le_iff (by norm_num)]
    norm_num [Exact.dot_two, chordStart]
  have hd : chordDirection ≠ zeros := by
    intro h
    have hentry : chordDirection[0] = (zeros : Vector ℝ 2)[0] := by rw [h]
    norm_num [chordDirection] at hentry
  obtain ⟨-, -, -, hinside, houtside, -, hroot⟩ :=
    ray_leaves_at_boundaryTau hz (by norm_num) hd
  have htau : boundaryTau chordStart chordDirection 5 = 2 := by
    have hsquare : (1600 : ℝ) = 40 * 40 := by norm_num
    rw [hroot]
    norm_num [Exact.dot_two, discrim, chordStart, chordDirection, hsquare]
  rw [htau] at hinside houtside
  exact ⟨hz, by norm_num, hd, htau, hinside 1 (by norm_num) (by norm_num),
    houtside 3 (by norm_num)⟩

end Example

end LocalOptimization.TrustRegion
