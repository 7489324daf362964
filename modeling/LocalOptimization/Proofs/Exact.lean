import Mathlib
import LocalOptimization.Proofs.Field

/-!
# Exact arithmetic

The real numbers as scalars: nothing is rounded, every number is finite and none is undefined.
-/

namespace LocalOptimization

/-- Real numbers. No number is infinite; objectives that are infinite somewhere say so by their
domain. -/
noncomputable instance instScalarReal : Scalar ℝ where
  decidableLT := Classical.decRel _
  decidableLE := Classical.decRel _
  sqrt := Real.sqrt
  abs := abs
  log := Real.log
  ofNat := Nat.cast
  isFinite _ := true
  isNaN _ := false
  isNegative a := haveI := Classical.dec (a < 0); decide (a < 0)
  infinity := 0

namespace Exact

theorem isFinite (a : ℝ) : Scalar.isFinite a = true :=
  rfl

theorem isNaN (a : ℝ) : Scalar.isNaN a = false :=
  rfl

theorem max_eq (a b : ℝ) : Scalar.max a b = max a b := by
  rw [Scalar.max, isNaN]
  split
  · next h => exact (max_eq_right (le_of_lt h)).symm
  · next h => exact (max_eq_left (not_lt.mp h)).symm

theorem min_eq (a b : ℝ) : Scalar.min a b = min a b := by
  rw [Scalar.min, isNaN]
  split
  · next h => exact (min_eq_right (le_of_lt h)).symm
  · next h => exact (min_eq_left (not_lt.mp h)).symm

theorem zero_eq : (0.0 : ℝ) = 0 := by
  norm_num

theorem one_eq : (1.0 : ℝ) = 1 := by
  norm_num

theorem two_eq : (2.0 : ℝ) = 2 := by
  norm_num

theorem half_eq : (0.5 : ℝ) = 1 / 2 := by
  norm_num

theorem isPositive_iff (a : ℝ) : Scalar.isPositive a = true ↔ 0 < a := by
  rw [Scalar.isPositive, isFinite, Bool.true_and, decide_eq_true_iff]
  exact zero_eq ▸ Iff.rfl

theorem inOpenUnit_iff (a : ℝ) : Scalar.inOpenUnit a = true ↔ 0 < a ∧ a < 1 := by
  rw [Scalar.inOpenUnit, Bool.and_eq_true, decide_eq_true_iff, decide_eq_true_iff, zero_eq, one_eq]

theorem allFinite {n : Nat} (v : Vector ℝ n) : allFinite v = true := by
  rw [LocalOptimization.allFinite, Vector.all_eq_true]
  exact fun i h => isFinite v[i]

theorem norm_nonneg {n : Nat} (v : Vector ℝ n) : 0 ≤ norm v :=
  Real.sqrt_nonneg _

theorem norm_mul_norm {n : Nat} (v : Vector ℝ n) : norm v * norm v = dot v v :=
  Real.mul_self_sqrt (dot_self_nonneg v)

theorem norm_eq_zero {n : Nat} {v : Vector ℝ n} (h : ∀ i (hi : i < n), v[i] = 0) : norm v = 0 := by
  have hdot : dot v v = 0 := by
    rw [dot_eq_sum]
    exact Finset.sum_eq_zero fun i _ => by rw [Vector.get_eq_getElem, h i i.isLt, mul_zero]
  rw [norm, hdot]
  exact Real.sqrt_zero

theorem norm_pos {n : Nat} {v : Vector ℝ n} (h : v ≠ zeros) : 0 < norm v :=
  Real.sqrt_pos.mpr (dot_self_pos h)

theorem norm_zeros {n : Nat} : norm (zeros : Vector ℝ n) = 0 := by
  apply norm_eq_zero
  intro i hi
  rw [getElem_zeros, zero_eq]

theorem norm_hmul {n : Nat} {t : ℝ} (ht : 0 ≤ t) (v : Vector ℝ n) : norm (t * v) = t * norm v := by
  calc
    norm (t * v) = √(t * t * dot v v) := by rw [norm, dot_hmul, hmul_dot, mul_assoc]; rfl
    _ = t * norm v := by rw [Real.sqrt_mul (mul_self_nonneg t), Real.sqrt_mul_self ht]; rfl

theorem norm_neg {n : Nat} (v : Vector ℝ n) : norm (-v) = norm v := by
  rw [norm, dot_neg, neg_dot, neg_neg, norm]

theorem norm_le_iff {n : Nat} {v : Vector ℝ n} {r : ℝ} (hr : 0 ≤ r) :
    norm v ≤ r ↔ dot v v ≤ r * r := by
  rw [← norm_mul_norm, mul_self_le_mul_self_iff (norm_nonneg v) hr]

theorem norm_lt_iff {n : Nat} {v : Vector ℝ n} {r : ℝ} (hr : 0 ≤ r) :
    norm v < r ↔ dot v v < r * r := by
  rw [← norm_mul_norm, mul_self_lt_mul_self_iff (norm_nonneg v) hr]

theorem norm_le_norm_iff {n : Nat} {v w : Vector ℝ n} : norm v ≤ norm w ↔ dot v v ≤ dot w w := by
  rw [norm_le_iff (norm_nonneg w), norm_mul_norm]

end Exact

end LocalOptimization
