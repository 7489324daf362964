import Mathlib
import LocalOptimization.Proofs.Exact

/-!
# Euclidean space

Vectors of real numbers are the elements of Euclidean space, where the inner product, the norm and
gradients are those of analysis.
-/

namespace LocalOptimization.Exact

variable {n : Nat}

/-- The vector as an element of Euclidean space. -/
noncomputable def toEuclidean (v : Vector ℝ n) : EuclideanSpace ℝ (Fin n) :=
  WithLp.toLp _ v.get

/-- The vector with the coordinates of an element of Euclidean space. -/
def ofEuclidean (y : EuclideanSpace ℝ (Fin n)) : Vector ℝ n :=
  Vector.ofFn y.ofLp

theorem ofEuclidean_toEuclidean (v : Vector ℝ n) : ofEuclidean (toEuclidean v) = v := by
  ext i hi
  rw [ofEuclidean, Vector.getElem_ofFn]
  rfl

theorem toEuclidean_ofEuclidean (y : EuclideanSpace ℝ (Fin n)) :
    toEuclidean (ofEuclidean y) = y := by
  ext i
  exact Vector.getElem_ofFn i.isLt

theorem inner_toEuclidean (a b : Vector ℝ n) :
    inner ℝ (toEuclidean a) (toEuclidean b) = dot b a := by
  rw [PiLp.inner_apply, dot_eq_sum]
  rfl

theorem inner_sum (y : EuclideanSpace ℝ (Fin n)) (l : List (EuclideanSpace ℝ (Fin n))) :
    inner ℝ y l.sum = (l.map fun v => inner ℝ y v).sum :=
  map_list_sum (innerₛₗ ℝ y) l

theorem toEuclidean_ne_zero {v : Vector ℝ n} (h : v ≠ zeros) : toEuclidean v ≠ 0 := by
  have hpos := dot_self_pos h
  rw [← inner_toEuclidean] at hpos
  exact inner_self_ne_zero.mp hpos.ne'

theorem sum_apply (l : List (EuclideanSpace ℝ (Fin n))) (i : Fin n) :
    l.sum i = (l.map fun y => y i).sum :=
  map_list_sum (EuclideanSpace.proj i : EuclideanSpace ℝ (Fin n) →L[ℝ] ℝ) l

theorem toEuclidean_hmul (t : ℝ) (v : Vector ℝ n) : toEuclidean (t * v) = t • toEuclidean v := by
  ext i
  exact Vector.getElem_hmul ..

theorem norm_toEuclidean (v : Vector ℝ n) : ‖toEuclidean v‖ = norm v := by
  rw [norm_eq_sqrt_real_inner, inner_toEuclidean]
  rfl

theorem neg_norm_mul_norm_le_dot (a b : Vector ℝ n) : -(norm a * norm b) ≤ dot a b := by
  rw [← norm_toEuclidean a, ← norm_toEuclidean b, ← inner_toEuclidean]
  have habs := abs_real_inner_le_norm (toEuclidean b) (toEuclidean a)
  rw [mul_comm]
  exact (abs_le.mp habs).1

section Gradient

variable {E : Type*} [NormedAddCommGroup E] [InnerProductSpace ℝ E] [CompleteSpace E]
  {u v : E → ℝ} {a b x : E}

theorem hasGradientAt_add (hu : HasGradientAt u a x) (hv : HasGradientAt v b x) :
    HasGradientAt (fun y => u y + v y) (a + b) x := by
  rw [hasGradientAt_iff_hasFDerivAt] at *
  rw [map_add]
  exact hu.add hv

theorem hasGradientAt_comp {psi : ℝ → ℝ} {d : ℝ} (hpsi : HasDerivAt psi d (u x))
    (hu : HasGradientAt u a x) : HasGradientAt (fun y => psi (u y)) (d • a) x := by
  rw [hasGradientAt_iff_hasFDerivAt] at *
  rw [map_smul]
  exact hpsi.comp_hasFDerivAt x hu

theorem hasGradientAt_sum_zipWith {α β : Type*} {term : α → β → E → ℝ} {gradient : α → β → E}
    {as : List α} (bs : List β)
    (h : ∀ i ∈ as, ∀ j, HasGradientAt (term i j) (gradient i j) x) :
    HasGradientAt (fun y => (as.zipWith (fun i j => term i j y) bs).sum)
      (as.zipWith gradient bs).sum x := by
  induction as generalizing bs with
  | nil => exact hasGradientAt_const x 0
  | cons i as ih =>
      rw [List.forall_mem_cons] at h
      cases bs with
      | nil => exact hasGradientAt_const x 0
      | cons j bs => exact hasGradientAt_add (h.1 j) (ih bs h.2)

theorem hasGradientAt_sum_map {α : Type*} {term : α → E → ℝ} {gradient : α → E} {as : List α}
    (h : ∀ i ∈ as, HasGradientAt (term i) (gradient i) x) :
    HasGradientAt (fun y => (as.map fun i => term i y).sum) (as.map gradient).sum x := by
  have hzip : HasGradientAt (fun y => (as.zipWith (fun i _ => term i y) as).sum)
      (as.zipWith (fun i _ => gradient i) as).sum x :=
    hasGradientAt_sum_zipWith as fun i hi _ => h i hi
  simpa only [List.zipWith_self] using hzip

theorem hasGradientAt_coordinate (i : Fin n) (y : EuclideanSpace ℝ (Fin n)) :
    HasGradientAt (fun y : EuclideanSpace ℝ (Fin n) => y i) (EuclideanSpace.single i 1) y := by
  have hdual : InnerProductSpace.toDual ℝ _ (EuclideanSpace.single i (1 : ℝ)) =
      EuclideanSpace.proj i := by
    ext v
    simp [EuclideanSpace.inner_single_left]
  rw [hasGradientAt_iff_hasFDerivAt, hdual]
  exact (EuclideanSpace.proj i : EuclideanSpace ℝ (Fin n) →L[ℝ] ℝ).hasFDerivAt

end Gradient

end LocalOptimization.Exact
