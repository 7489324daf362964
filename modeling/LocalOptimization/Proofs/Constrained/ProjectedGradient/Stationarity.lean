import Mathlib
import LocalOptimization.Proofs.Constrained.ProjectedGradient.Convergence

/-!
# First-order points of a box

The moves along the projection arc vanish exactly where no direction into the box descends, and the
residual is the length of one of them. Elsewhere every move descends, at a rate of at least its
squared length over the step length, so that a search from there never finds a trial whose linear
model does not decrease.
-/

namespace LocalOptimization.Constrained.ProjectedGradient

variable {n : Nat} {ε : Type} {b : Box ℝ n} {e : Evaluation ℝ n} {alpha : ℝ}

/-- No direction into the box descends. -/
def FirstOrder (b : Box ℝ n) (e : Evaluation ℝ n) : Prop :=
  ∀ y, b.contains y = true → 0 ≤ dot e.gradient (y - e.x)

theorem dot_move_move_eq_zero_iff (hx : b.contains e.x = true) (hpos : 0 < alpha) :
    dot (move b e alpha) (move b e alpha) = 0 ↔ FirstOrder b e := by
  constructor
  · intro hzero y hy
    have hmove : move b e alpha = zeros := by
      by_contra hne
      exact (Exact.dot_self_pos hne).ne' hzero
    have hobtuse := dot_move_sub_le e alpha hy
    rw [hmove, Exact.zeros_dot, Exact.zeros_dot, Exact.dot_zeros, sub_zero, sub_zero] at hobtuse
    exact nonneg_of_mul_nonneg_right hobtuse hpos
  · intro firstOrder
    have hstays : 0 ≤ dot e.gradient (move b e alpha) := firstOrder _ (contains_arc b e alpha)
    have hdescent := mul_dot_move_le hx alpha
    have hproduct := mul_nonneg hpos.le hstays
    exact le_antisymm (by linarith) (Exact.dot_self_nonneg _)

theorem residual_eq_zero_iff (hx : b.contains e.x = true) :
    residual b e = 0 ↔ FirstOrder b e := by
  rw [← dot_move_move_eq_zero_iff hx one_pos, ← residual_mul_residual, mul_self_eq_zero]

theorem norm_move_eq_zero_iff (hx : b.contains e.x = true) (hpos : 0 < alpha) :
    norm (move b e alpha) = 0 ↔ residual b e = 0 := by
  rw [residual_eq_zero_iff hx, ← dot_move_move_eq_zero_iff hx hpos, ← Exact.norm_mul_norm,
    mul_self_eq_zero]

theorem dot_move_le (hx : b.contains e.x = true) (hpos : 0 < alpha) :
    dot e.gradient (move b e alpha) ≤ -norm (move b e alpha) ^ 2 / alpha := by
  rw [le_div_iff₀' hpos, sq, Exact.norm_mul_norm]
  exact mul_dot_move_le hx alpha

theorem neg_sq_div_neg_iff (hx : b.contains e.x = true) (hpos : 0 < alpha) :
    -norm (move b e alpha) ^ 2 / alpha < 0 ↔ residual b e ≠ 0 := by
  rw [div_lt_iff₀ hpos, zero_mul, neg_lt_zero, sq_pos_iff, Ne, norm_move_eq_zero_iff hx hpos]

/-- The residual vanishes exactly at the first-order points of the box. Along the arc the linear
model of the objective decreases by at least the squared length of the move over the step length,
which is positive at all other points. So where the residual is not below the tolerance, a search
accepts every trial that is finite and meets the bound on the value. -/
theorem residual_detects_firstOrder (b : Box ℝ n) (e : Evaluation ℝ n)
    (hx : b.contains e.x = true) :
    (residual b e = 0 ↔ FirstOrder b e) ∧
    (∀ alpha, 0 < alpha →
      dot e.gradient (move b e alpha) ≤ -norm (move b e alpha) ^ 2 / alpha ∧
      (-norm (move b e alpha) ^ 2 / alpha < 0 ↔ residual b e ≠ 0)) ∧
    ∀ (c : Config ℝ) (f : Objective ℝ n ε), c.validate = .ok () → ¬ residual b e < c.tolerance →
      ∀ j value, decide (dot e.gradient (move b e (c.initialStep * c.shrink ^ j)) < 0.0) = true ∧
        accepts c f e (arc b e (c.initialStep * c.shrink ^ j)) value =
          (f.isFiniteAt (arc b e (c.initialStep * c.shrink ^ j)) value &&
            decide (value ≤
              e.value + c.c1 * dot e.gradient (move b e (c.initialStep * c.shrink ^ j)))) := by
  refine ⟨residual_eq_zero_iff hx, ?_, ?_⟩
  · intro alpha hpos
    exact ⟨dot_move_le hx hpos, neg_sq_div_neg_iff hx hpos⟩
  · intro c f hvalid hlarge j value
    have valid := Config.validate_eq_ok_iff.mp hvalid
    have htolerance := (Exact.isPositive_iff _).mp valid.tolerancePositive
    have hresidual : residual b e ≠ 0 := (htolerance.trans_le (not_lt.mp hlarge)).ne'
    have hpos : 0 < c.initialStep * c.shrink ^ j :=
      mul_pos ((Exact.isPositive_iff _).mp valid.initialStep)
        (pow_pos ((Exact.inOpenUnit_iff _).mp valid.shrink).1 j)
    have hdescent : dot e.gradient (move b e (c.initialStep * c.shrink ^ j)) < 0.0 := by
      rw [Exact.zero_eq]
      exact (dot_move_le hx hpos).trans_lt ((neg_sq_div_neg_iff hx hpos).mpr hresidual)
    refine ⟨decide_eq_true hdescent, ?_⟩
    change (_ && decide (dot e.gradient (move b e (c.initialStep * c.shrink ^ j)) < 0.0) && _) = _
    rw [decide_eq_true hdescent, Bool.and_true]
    rfl

section Example

/-- The evaluation of `½·(x - 2)²`. -/
noncomputable def parabolaAt (x : Vector ℝ 1) : Evaluation ℝ 1 where
  x
  value := 0.5 * dot (x - .replicate 1 2.0) (x - .replicate 1 2.0)
  gradient := x - .replicate 1 2.0

theorem contains_interval_iff {x : Vector ℝ 1} :
    interval.contains x = true ↔ 0 ≤ x.get 0 ∧ x.get 0 ≤ 1 := by
  rw [Box.contains_iff, Fin.forall_fin_one, Box.between_iff]
  simp [interval, Vector.get_eq_getElem]

theorem residual_parabolaAt (x : Vector ℝ 1) :
    residual interval (parabolaAt x) = norm (x - #v[1]) := by
  have hproject : interval.project (x - (x - .replicate 1 2.0)) = #v[1] := by
    ext i hi
    obtain rfl : i = 0 := by omega
    have hclamp : (interval.project (x - (x - .replicate 1 2.0))).get 0 = 1 := by
      rw [Box.get_project]
      norm_num [interval, Box.clamp, Vector.get_eq_getElem]
    exact hclamp
  rw [residual, parabolaAt, hproject]

theorem residual_detects_firstOrder_interval :
    interval.contains #v[0] = true ∧ interval.contains #v[1] = true ∧
      Config.validate (K := ℝ) {} = .ok () ∧
      residual interval (parabolaAt #v[1]) = 0 ∧ FirstOrder interval (parabolaAt #v[1]) ∧
      ¬ residual interval (parabolaAt #v[0]) < 1e-6 ∧
      ∀ j, decide (dot (parabolaAt #v[0]).gradient
        (move interval (parabolaAt #v[0]) (1.0 * 0.5 ^ j)) < 0.0) = true := by
  have hleft : interval.contains #v[0] = true := by
    rw [contains_interval_iff]
    simp [Vector.get_eq_getElem]
  have hright : interval.contains #v[1] = true := by
    rw [contains_interval_iff]
    simp [Vector.get_eq_getElem]
  have hzero : residual interval (parabolaAt #v[1]) = 0 := by
    rw [residual_parabolaAt]
    apply Exact.norm_eq_zero
    intro i hi
    rw [Vector.getElem_sub, sub_self]
  have hlarge : ¬ residual interval (parabolaAt #v[0]) < 1e-6 := by
    rw [residual_parabolaAt, Exact.norm_lt_iff (by norm_num), Exact.dot_eq_sum,
      Fin.sum_univ_one]
    norm_num [Vector.get_eq_getElem]
  obtain ⟨hdetects, -, -⟩ :=
    residual_detects_firstOrder (ε := Empty) interval (parabolaAt #v[1]) hright
  obtain ⟨-, -, hpasses⟩ :=
    residual_detects_firstOrder (ε := Empty) interval (parabolaAt #v[0]) hleft
  refine ⟨hleft, hright, validate_default, hzero, hdetects.mp hzero, hlarge, ?_⟩
  intro j
  exact (hpasses {} parabola validate_default hlarge j 0).1

end Example

end LocalOptimization.Constrained.ProjectedGradient
