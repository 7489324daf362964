import Mathlib
import LocalOptimization.Proofs.Difference
import LocalOptimization.Proofs.Difference.Probes
import LocalOptimization.Proofs.Euclidean

/-!
# Differences and derivatives

A quadratic function differs from its linear part by a term of second order, so that the vector
`Sx + b` with the symmetric part `S` of its matrix is its gradient. It is also what central
differences return.
-/

namespace LocalOptimization

open Filter Topology
open Exact (toEuclidean ofEuclidean IsSymmetric)

variable {n : Nat}

section Gradient

theorem abs_get_le_norm (v : Vector ℝ n) (i : Fin n) : |v.get i| ≤ norm v := by
  rw [← Exact.norm_toEuclidean]
  exact PiLp.norm_apply_le (toEuclidean v) i

theorem abs_quadraticForm_le (m : Matrix ℝ n) (v : Vector ℝ n) :
    |quadraticForm m v| ≤ (∑ i, ∑ j, |(m.get i).get j|) * norm v ^ 2 := by
  rw [quadraticForm, Exact.dot_mulVec_eq_sum, Finset.sum_mul]
  refine (Finset.abs_sum_le_sum_abs _ _).trans (Finset.sum_le_sum fun i _ => ?_)
  rw [Finset.sum_mul]
  refine (Finset.abs_sum_le_sum_abs _ _).trans (Finset.sum_le_sum fun j _ => ?_)
  have hi := abs_get_le_norm v i
  have hj := abs_get_le_norm v j
  have hnorm := Exact.norm_nonneg v
  calc
    |v.get i * ((m.get i).get j * v.get j)| = |(m.get i).get j| * (|v.get i| * |v.get j|) := by
      rw [abs_mul, abs_mul]
      ring
    _ ≤ |(m.get i).get j| * (norm v * norm v) := by gcongr
    _ = |(m.get i).get j| * norm v ^ 2 := by rw [sq]

theorem isLittleO_quadraticForm (m : Matrix ℝ n) (x : EuclideanSpace ℝ (Fin n)) :
    (fun y => 0.5 * quadraticForm m (ofEuclidean (y - x))) =o[𝓝 x] fun y => y - x := by
  have hsquare := Asymptotics.isLittleO_pow_sub_sub x one_lt_two
  refine Asymptotics.IsBigO.trans_isLittleO ?_ hsquare
  refine .of_bound (0.5 * ∑ i, ∑ j, |(m.get i).get j|) (Eventually.of_forall fun y => ?_)
  have hbound := abs_quadraticForm_le m (ofEuclidean (y - x))
  rw [← Exact.norm_toEuclidean, Exact.toEuclidean_ofEuclidean] at hbound
  rw [norm_mul, norm_pow, norm_norm, mul_assoc]
  norm_num
  exact hbound

/-- The true gradient of a quadratic function. -/
theorem hasGradientAt_quadratic (a : Matrix ℝ n) (b : Vector ℝ n) (c : ℝ) (x : Vector ℝ n) :
    HasGradientAt (fun y => quadratic a b c (ofEuclidean y))
      (toEuclidean (mulVec (symmetricPart a) x + b)) (toEuclidean x) := by
  rw [hasGradientAt_iff_isLittleO]
  refine (isLittleO_quadraticForm (symmetricPart a) (toEuclidean x)).congr_left fun y => ?_
  have hy : ofEuclidean y = x + ofEuclidean (y - toEuclidean x) := by
    ext i hi
    simp [Exact.ofEuclidean, Exact.toEuclidean, Vector.get_eq_getElem]
  have hinner : inner ℝ (toEuclidean (mulVec (symmetricPart a) x + b)) (y - toEuclidean x) =
      dot (mulVec (symmetricPart a) x + b) (ofEuclidean (y - toEuclidean x)) := by
    rw [Exact.dot_comm, ← Exact.inner_toEuclidean, Exact.toEuclidean_ofEuclidean]
  rw [hinner, Exact.ofEuclidean_toEuclidean, ← quadratic_symmetricPart, hy,
    quadratic_add (isSymmetric_symmetricPart a)]
  ring

end Gradient

namespace Difference

/-- Central differences are made from their probes alone: a Jacobian from the gradients of its rows,
and every failure from the first probe that fails. A Hessian is symmetric whatever is probed.
Where nothing is rounded, quadratic functions and affine maps have their true derivatives. -/
theorem derivatives_from_probes {K : Type} [Arithmetic K] {n : Nat} {ε : Type}
    (f : Vector K n → Except ε K) (g : Vector K n → Except ε (Vector K n)) (x : Vector K n) :
    (∀ i : Fin n, gradient (fun y => (g y).map (·.get i)) x = (jacobian g x).map (·.get i)) ∧
      FailsAsProbed f (probePoints gradientStep x) (gradient f x) ∧
      FailsAsProbed g (probePoints gradientStep x) (jacobian g x) ∧
      FailsAsProbed g (probePoints hessianStep x) (hessian g x) ∧
      (∀ h, hessian g x = .ok h → ∀ i j : Fin n, (h.get i).get j = (h.get j).get i) ∧
      ∀ (a : Matrix ℝ n) (b : Vector ℝ n) (c : ℝ) (z : Vector ℝ n),
        (∃ d, gradient (ε := ε) (fun y => .ok (quadratic a b c y)) z = .ok d ∧
          HasGradientAt (fun y => quadratic a b c (ofEuclidean y)) (toEuclidean d)
            (toEuclidean z)) ∧
        jacobian (ε := ε) (fun y => .ok (mulVec a y + b)) z = .ok a ∧
        hessian (ε := ε) (fun y => .ok (mulVec a y + b)) z = .ok (symmetricPart a) := by
  refine ⟨gradient_component g x, failsAsProbed_gradient f x, failsAsProbed_jacobianWith _ g x,
    failsAsProbed_hessian g x, fun h hh => isSymmetric_of_hessian hh, ?_⟩
  intro a b c z
  exact ⟨⟨_, gradient_of_quadratic_eq fun _ => rfl, hasGradientAt_quadratic a b c z⟩,
    jacobianWith_of_affine gradientStep_ne_zero fun _ => rfl, hessian_of_affine_eq fun _ => rfl⟩

section Example

/-- The matrix of the map from `(x, y)` to `(y, 3x)`. -/
noncomputable def skewed : Matrix ℝ 2 :=
  .ofFn ![.ofFn ![0.0, 1.0], .ofFn ![3.0, 0.0]]

theorem derivatives_from_probes_skewed :
    jacobian (ε := Empty) (fun y => .ok (mulVec skewed y + zeros)) zeros = .ok skewed ∧
      hessian (ε := Empty) (fun y => .ok (mulVec skewed y + zeros)) zeros =
        .ok (symmetricPart skewed) ∧
      ((symmetricPart skewed).get 0).get 1 = 2 ∧ ((symmetricPart skewed).get 1).get 0 = 2 := by
  obtain ⟨-, -, -, -, hsymmetric, hexact⟩ := derivatives_from_probes (ε := Empty)
    (fun _ => .ok 0) (fun y => .ok (mulVec skewed y + zeros)) (zeros : Vector ℝ 2)
  obtain ⟨-, hjacobian, hhessian⟩ := hexact skewed zeros 0 zeros
  have hmean : ((symmetricPart skewed).get 0).get 1 = 2 := by
    rw [get_symmetricPart]
    norm_num [skewed, Vector.get_eq_getElem]
  exact ⟨hjacobian, hhessian, hmean, (hsymmetric _ hhessian 1 0).trans hmean⟩

end Example

end Difference

end LocalOptimization
