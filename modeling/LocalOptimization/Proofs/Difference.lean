import Mathlib
import LocalOptimization.Difference
import LocalOptimization.Proofs.Exact

/-!
# Where central differences are exact

Central differences of an affine map are its matrix, and those of a quadratic function are its
gradient, for any step: the terms of even degree cancel. Of the matrix of a quadratic function only
the symmetric part counts.
-/

namespace LocalOptimization

open Exact (IsSymmetric)

section Quadratic

variable {n : Nat}

/-- The function `½·xᵗAx + bᵗx + c`. -/
noncomputable def quadratic (a : Matrix ℝ n) (b : Vector ℝ n) (c : ℝ) (x : Vector ℝ n) : ℝ :=
  0.5 * quadraticForm a x + dot b x + c

theorem quadratic_add {a : Matrix ℝ n} (h : IsSymmetric a) (b : Vector ℝ n) (c : ℝ)
    (x p : Vector ℝ n) :
    quadratic a b c (x + p) =
      quadratic a b c x + dot (mulVec a x + b) p + 0.5 * quadraticForm a p := by
  rw [quadratic, quadratic, Exact.quadraticForm_add h, Exact.dot_add, Exact.add_dot,
    Exact.dot_mulVec_comm h x p, Exact.dot_comm p]
  ring

/-- The matrix `(A + Aᵗ) / 2`. -/
noncomputable def symmetricPart (a : Matrix ℝ n) : Matrix ℝ n :=
  Vector.ofFn fun i => Vector.ofFn fun j => ((a.get i).get j + (a.get j).get i) / 2.0

theorem get_symmetricPart (a : Matrix ℝ n) (i j : Fin n) :
    ((symmetricPart a).get i).get j = ((a.get i).get j + (a.get j).get i) / 2 := by
  simp [symmetricPart, Vector.get_eq_getElem, Exact.two_eq]

theorem isSymmetric_symmetricPart (a : Matrix ℝ n) : IsSymmetric (symmetricPart a) := by
  intro i j
  rw [get_symmetricPart, get_symmetricPart, add_comm]

theorem symmetricPart_of_symmetric {a : Matrix ℝ n} (h : IsSymmetric a) : symmetricPart a = a := by
  ext i hi j hj
  change ((symmetricPart a).get ⟨i, hi⟩).get ⟨j, hj⟩ = (a.get ⟨i, hi⟩).get ⟨j, hj⟩
  rw [get_symmetricPart, ← h ⟨i, hi⟩ ⟨j, hj⟩, add_self_div_two]

theorem quadraticForm_symmetricPart (a : Matrix ℝ n) (v : Vector ℝ n) :
    quadraticForm (symmetricPart a) v = quadraticForm a v := by
  have hswap : ∑ i, ∑ j, v.get i * ((a.get j).get i * v.get j) = quadraticForm a v := by
    rw [quadraticForm, Exact.dot_mulVec_eq_sum, Finset.sum_comm]
    refine Finset.sum_congr rfl fun i _ => Finset.sum_congr rfl fun j _ => ?_
    ring
  calc
    quadraticForm (symmetricPart a) v =
        ∑ i, ∑ j, (v.get i * ((a.get i).get j * v.get j) +
          v.get i * ((a.get j).get i * v.get j)) / 2 := by
      rw [quadraticForm, Exact.dot_mulVec_eq_sum]
      refine Finset.sum_congr rfl fun i _ => Finset.sum_congr rfl fun j _ => ?_
      rw [get_symmetricPart]
      ring
    _ = (quadraticForm a v + quadraticForm a v) / 2 := by
      simp only [← Finset.sum_div, Finset.sum_add_distrib, hswap]
      rw [quadraticForm, Exact.dot_mulVec_eq_sum]
    _ = quadraticForm a v := add_self_div_two _

theorem quadratic_symmetricPart (a : Matrix ℝ n) (b : Vector ℝ n) (c : ℝ) :
    quadratic (symmetricPart a) b c = quadratic a b c := by
  funext x
  rw [quadratic, quadratic, quadraticForm_symmetricPart]

end Quadratic

namespace Difference

variable {n : Nat} {ε α : Type} {step : ℝ} {x : Vector ℝ n}

theorem set_eq_add (x : Vector ℝ n) (i : Fin n) (t : ℝ) :
    x.set i (x.get i + t) i.isLt = x + t * (identity : Matrix ℝ n).get i := by
  ext j hj
  rw [Vector.getElem_set, Vector.getElem_add, Vector.getElem_hmul]
  by_cases h : i.val = j
  · simp [h, Exact.one_eq, Vector.get_eq_getElem]
  · simp [h, Exact.zero_eq, Vector.get_eq_getElem]

theorem dot_identity (a : Vector ℝ n) (i : Fin n) :
    dot a ((identity : Matrix ℝ n).get i) = a.get i := by
  have h := congrArg (fun v => v[i]) (Exact.identity_mulVec a)
  simp only [Fin.getElem_fin, getElem_mulVec] at h
  rw [Exact.dot_comm]
  exact h

theorem probes_eq_ok {f : Vector ℝ n → Except ε α} {g : Vector ℝ n → α}
    (h : ∀ y, f y = .ok (g y)) :
    probes step f x = .ok (Vector.ofFn fun i =>
      { forward := g (x + step * (identity : Matrix ℝ n).get i)
        backward := g (x + -step * (identity : Matrix ℝ n).get i) }) := by
  have hprobe : (fun i => probe step f x i) = fun i => pure {
      forward := g (x + step * (identity : Matrix ℝ n).get i)
      backward := g (x + -step * (identity : Matrix ℝ n).get i) } := by
    funext i
    have hforward : x.set i (x[i] + step) = x + step * (identity : Matrix ℝ n).get i :=
      set_eq_add x i step
    have hbackward : x.set i (x[i] - step) = x + -step * (identity : Matrix ℝ n).get i := by
      rw [sub_eq_add_neg]
      exact set_eq_add x i (-step)
    rw [probe, hforward, hbackward, h, h]
    rfl
  rw [probes, hprobe]
  exact Vector.ofFnM_pure

theorem quotient_eq (hstep : step ≠ 0) (u d e : ℝ) :
    quotient step (u + step * d + e) (u + -step * d + e) = d := by
  rw [quotient, Exact.two_eq]
  field_simp
  ring

theorem jacobianWith_of_affine {f : Vector ℝ n → Except ε (Vector ℝ n)} {a : Matrix ℝ n}
    {b : Vector ℝ n} (hstep : step ≠ 0) (h : ∀ y, f y = .ok (mulVec a y + b)) :
    jacobianWith step f x = .ok a := by
  have hentry (i j : Fin n) (t : ℝ) :
      (mulVec a (x + t * (identity : Matrix ℝ n).get j) + b)[i] =
        dot a[i] x + t * a[i].get j + b[i] := by
    rw [Fin.getElem_fin, Vector.getElem_add, getElem_mulVec, Exact.dot_add, Exact.dot_hmul,
      dot_identity]
    rfl
  rw [jacobianWith, probes_eq_ok h]
  refine congrArg Except.ok ?_
  ext i hi j hj
  rw [Vector.getElem_ofFn, Vector.getElem_map, Vector.getElem_ofFn, hentry ⟨i, hi⟩ ⟨j, hj⟩,
    hentry ⟨i, hi⟩ ⟨j, hj⟩, quotient_eq hstep]
  rfl

theorem gradientStep_ne_zero : (gradientStep : ℝ) ≠ 0 := by
  norm_num [gradientStep]

theorem hessianStep_ne_zero : (hessianStep : ℝ) ≠ 0 := by
  norm_num [hessianStep]

theorem gradient_of_quadratic {f : Vector ℝ n → Except ε ℝ} {a : Matrix ℝ n} {b : Vector ℝ n}
    {c : ℝ} (symmetric : IsSymmetric a) (h : ∀ y, f y = .ok (quadratic a b c y)) :
    gradient f x = .ok (mulVec a x + b) := by
  have hvalue (i : Fin n) (t : ℝ) :
      quadratic a b c (x + t * (identity : Matrix ℝ n).get i) =
        quadratic a b c x + t * (mulVec a x + b).get i +
          t * t * (0.5 * quadraticForm a ((identity : Matrix ℝ n).get i)) := by
    rw [quadratic_add symmetric, Exact.dot_hmul, dot_identity, Exact.quadraticForm_hmul]
    ring
  rw [gradient, probes_eq_ok h]
  refine congrArg Except.ok ?_
  ext i hi
  rw [Vector.getElem_map, Vector.getElem_ofFn, hvalue ⟨i, hi⟩, hvalue ⟨i, hi⟩, neg_mul_neg,
    quotient_eq gradientStep_ne_zero]
  rfl

theorem gradient_of_quadratic_eq {f : Vector ℝ n → Except ε ℝ} {a : Matrix ℝ n} {b : Vector ℝ n}
    {c : ℝ} (h : ∀ y, f y = .ok (quadratic a b c y)) :
    gradient f x = .ok (mulVec (symmetricPart a) x + b) := by
  apply gradient_of_quadratic (isSymmetric_symmetricPart a) (c := c)
  rwa [quadratic_symmetricPart]

theorem symmetrize_eq (a : Matrix ℝ n) : symmetrize a = symmetricPart a := by
  have hmean (u v : ℝ) : 0.5 * (u + v) = (u + v) / 2 := by ring
  ext i hi j hj
  change _ = ((symmetricPart a).get ⟨i, hi⟩).get ⟨j, hj⟩
  rw [get_symmetricPart, symmetrize, Vector.getElem_ofFn, Vector.getElem_ofFn]
  split_ifs with hlt hgt
  · exact hmean _ _
  · rw [hmean, add_comm]
    rfl
  · obtain rfl : i = j := Nat.le_antisymm (not_lt.mp hgt) (not_lt.mp hlt)
    exact (add_self_div_two _).symm

theorem hessian_of_affine_eq {f : Vector ℝ n → Except ε (Vector ℝ n)} {a : Matrix ℝ n}
    {b : Vector ℝ n} (h : ∀ y, f y = .ok (mulVec a y + b)) :
    hessian f x = .ok (symmetricPart a) := by
  rw [hessian, jacobianWith_of_affine hessianStep_ne_zero h]
  exact congrArg Except.ok (symmetrize_eq a)

theorem hessian_of_affine {f : Vector ℝ n → Except ε (Vector ℝ n)} {a : Matrix ℝ n}
    {b : Vector ℝ n} (symmetric : IsSymmetric a) (h : ∀ y, f y = .ok (mulVec a y + b)) :
    hessian f x = .ok a := by
  rw [hessian_of_affine_eq h, symmetricPart_of_symmetric symmetric]

end Difference

end LocalOptimization
