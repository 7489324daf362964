import Mathlib
import LocalOptimization.Linear

/-!
# Linear algebra over ordered fields

Where nothing is rounded, the inner product is bilinear and symmetric, and products with matrices
are linear. The lemmas hold over any ordered field, and the real numbers are one.
-/

namespace LocalOptimization.Exact

/-- The arithmetic of an ordered field. -/
@[reducible]
noncomputable def arithmetic (K : Type) [Field K] [LinearOrder K] : Arithmetic K where
  decidableLT := Classical.decRel _
  decidableLE := Classical.decRel _

section Field

variable {K : Type} [Field K] [LinearOrder K] {n : Nat}

attribute [local instance] arithmetic

theorem neg_hmul (t : K) (a : Vector K n) : -t * a = -(t * a) := by
  ext i hi
  simp only [Vector.getElem_hmul, Vector.getElem_neg, neg_mul]

/-- Both entries of every pair off the diagonal agree. -/
def IsSymmetric (m : Matrix K n) : Prop :=
  ∀ i j : Fin n, (m.get i).get j = (m.get j).get i

theorem isSymmetric_identity : IsSymmetric (identity : Matrix K n) := by
  intro i j
  simp only [Vector.get_eq_getElem, getElem_identity, eq_comm]

theorem isSymmetric_outer (a : Vector K n) : IsSymmetric (outer a a) := by
  intro i j
  simp only [Vector.get_eq_getElem, getElem_outer, Vector.getElem_hmul, mul_comm]

theorem IsSymmetric.add {a b : Matrix K n} (ha : IsSymmetric a) (hb : IsSymmetric b) :
    IsSymmetric (a + b) := by
  intro i j
  have ha := ha i j
  have hb := hb i j
  simp only [Vector.get_eq_getElem] at ha hb
  simp only [Vector.get_eq_getElem, Vector.getElem_add, ha, hb]

theorem IsSymmetric.hmul {m : Matrix K n} (h : IsSymmetric m) (t : K) : IsSymmetric (t * m) := by
  intro i j
  have h := h i j
  simp only [Vector.get_eq_getElem] at h
  simp only [Vector.get_eq_getElem, Vector.getElem_hmul, h]

variable [IsStrictOrderedRing K]

theorem sum_eq (xs : List K) : Scalar.sum xs = xs.sum := by
  have hneutral : (-0.0 : K) = 0 := by norm_num
  rw [Scalar.sum, hneutral, List.sum_eq_foldl]

theorem dot_eq_sum (a b : Vector K n) : dot a b = ∑ i : Fin n, a.get i * b.get i := by
  have hentries : (Vector.zipWith (· * ·) a b).toList =
      List.ofFn fun i : Fin n => a.get i * b.get i := by
    apply List.ext_getElem
    · simp
    · simp [Vector.get_eq_getElem]
  rw [dot, sum_eq, hentries, List.sum_ofFn]

theorem dot_two (a b : Vector K 2) : dot a b = a[0] * b[0] + a[1] * b[1] := by
  rw [dot_eq_sum, Fin.sum_univ_two]
  rfl

theorem dot_comm (a b : Vector K n) : dot a b = dot b a := by
  simp only [dot_eq_sum, mul_comm]

theorem dot_add (a b c : Vector K n) : dot a (b + c) = dot a b + dot a c := by
  simp only [dot_eq_sum, Vector.get_eq_getElem, Vector.getElem_add, mul_add, Finset.sum_add_distrib]

theorem dot_hmul (t : K) (a b : Vector K n) : dot a (t * b) = t * dot a b := by
  simp only [dot_eq_sum, Vector.get_eq_getElem, Vector.getElem_hmul, Finset.mul_sum, mul_left_comm]

theorem dot_neg (a b : Vector K n) : dot a (-b) = -dot a b := by
  simp only [dot_eq_sum, Vector.get_eq_getElem, Vector.getElem_neg, mul_neg, Finset.sum_neg_distrib]

theorem dot_sub (a b c : Vector K n) : dot a (b - c) = dot a b - dot a c := by
  simp only [dot_eq_sum, Vector.get_eq_getElem, Vector.getElem_sub, mul_sub, Finset.sum_sub_distrib]

theorem dot_zeros (a : Vector K n) : dot a zeros = 0 := by
  have hzero : (0.0 : K) = 0 := by norm_num
  simp only [dot_eq_sum, Vector.get_eq_getElem, getElem_zeros, hzero, mul_zero,
    Finset.sum_const_zero]

theorem add_dot (a b c : Vector K n) : dot (a + b) c = dot a c + dot b c := by
  rw [dot_comm, dot_add, dot_comm c, dot_comm c]

theorem hmul_dot (t : K) (a b : Vector K n) : dot (t * a) b = t * dot a b := by
  rw [dot_comm, dot_hmul, dot_comm b]

theorem neg_dot (a b : Vector K n) : dot (-a) b = -dot a b := by
  rw [dot_comm, dot_neg, dot_comm b]

theorem sub_dot (a b c : Vector K n) : dot (a - b) c = dot a c - dot b c := by
  rw [dot_comm, dot_sub, dot_comm c, dot_comm c]

theorem dot_self_nonneg (a : Vector K n) : 0 ≤ dot a a := by
  rw [dot_eq_sum]
  exact Finset.sum_nonneg fun i _ => mul_self_nonneg (a.get i)

theorem dot_self_add (a b : Vector K n) :
    dot (a + b) (a + b) = dot a a + 2 * dot a b + dot b b := by
  rw [dot_add, add_dot, add_dot, dot_comm b a]
  ring

theorem mulVec_add (m : Matrix K n) (a b : Vector K n) :
    mulVec m (a + b) = mulVec m a + mulVec m b := by
  ext i hi
  simp only [getElem_mulVec, Vector.getElem_add, dot_add]

theorem mulVec_hmul (m : Matrix K n) (t : K) (a : Vector K n) :
    mulVec m (t * a) = t * mulVec m a := by
  ext i hi
  simp only [getElem_mulVec, Vector.getElem_hmul, dot_hmul]

theorem mulVec_neg (m : Matrix K n) (a : Vector K n) : mulVec m (-a) = -mulVec m a := by
  ext i hi
  simp only [getElem_mulVec, Vector.getElem_neg, dot_neg]

theorem mulVec_sub (m : Matrix K n) (a b : Vector K n) :
    mulVec m (a - b) = mulVec m a - mulVec m b := by
  ext i hi
  simp only [getElem_mulVec, Vector.getElem_sub, dot_sub]

theorem add_mulVec (a b : Matrix K n) (v : Vector K n) :
    mulVec (a + b) v = mulVec a v + mulVec b v := by
  ext i hi
  simp only [getElem_mulVec, Vector.getElem_add, add_dot]

theorem sub_mulVec (a b : Matrix K n) (v : Vector K n) :
    mulVec (a - b) v = mulVec a v - mulVec b v := by
  ext i hi
  simp only [getElem_mulVec, Vector.getElem_sub, sub_dot]

theorem hmul_mulVec (t : K) (m : Matrix K n) (v : Vector K n) :
    mulVec (t * m) v = t * mulVec m v := by
  ext i hi
  simp only [getElem_mulVec, Vector.getElem_hmul, hmul_dot]

theorem outer_mulVec (a b v : Vector K n) : mulVec (outer a b) v = dot b v * a := by
  ext i hi
  simp only [getElem_mulVec, getElem_outer, Vector.getElem_hmul, hmul_dot, mul_comm]

theorem identity_mulVec (v : Vector K n) : mulVec identity v = v := by
  have hone : (1.0 : K) = 1 := by norm_num
  have hzero : (0.0 : K) = 0 := by norm_num
  ext i hi
  rw [getElem_mulVec, dot_eq_sum, Finset.sum_eq_single ⟨i, hi⟩]
  · simp only [Vector.get_eq_getElem, getElem_identity, hone, if_true, one_mul]
  · intro j _ hj
    have hne : i ≠ j := fun h => hj (Fin.ext h.symm)
    simp only [Vector.get_eq_getElem, getElem_identity, hzero, if_neg hne, zero_mul]
  · exact fun h => absurd (Finset.mem_univ _) h

theorem mulVec_zeros (m : Matrix K n) : mulVec m zeros = zeros := by
  have hzero : (0.0 : K) = 0 := by norm_num
  ext i hi
  simp only [getElem_mulVec, getElem_zeros, dot_zeros, hzero]

theorem dot_mulVec_eq_sum (m : Matrix K n) (a b : Vector K n) :
    dot a (mulVec m b) = ∑ i : Fin n, ∑ j : Fin n, a.get i * ((m.get i).get j * b.get j) := by
  simp only [dot_eq_sum, Vector.get_eq_getElem, getElem_mulVec, Finset.mul_sum]

theorem dot_mulVec_comm {m : Matrix K n} (h : IsSymmetric m) (a b : Vector K n) :
    dot a (mulVec m b) = dot b (mulVec m a) := by
  rw [dot_mulVec_eq_sum, dot_mulVec_eq_sum, Finset.sum_comm]
  apply Finset.sum_congr rfl
  intro j _
  apply Finset.sum_congr rfl
  intro i _
  rw [h i j]
  ring

theorem quadraticForm_zeros (m : Matrix K n) : quadraticForm m zeros = 0 := by
  rw [quadraticForm, mulVec_zeros, dot_zeros]

theorem quadraticForm_neg (m : Matrix K n) (a : Vector K n) :
    quadraticForm m (-a) = quadraticForm m a := by
  rw [quadraticForm, mulVec_neg, dot_neg, neg_dot, neg_neg, quadraticForm]

theorem quadraticForm_hmul (m : Matrix K n) (t : K) (a : Vector K n) :
    quadraticForm m (t * a) = t * t * quadraticForm m a := by
  rw [quadraticForm, mulVec_hmul, dot_hmul, hmul_dot, quadraticForm, mul_assoc]

theorem quadraticForm_add {m : Matrix K n} (h : IsSymmetric m) (a b : Vector K n) :
    quadraticForm m (a + b) =
      quadraticForm m a + 2 * dot a (mulVec m b) + quadraticForm m b := by
  rw [quadraticForm, mulVec_add, dot_add, add_dot, add_dot, dot_mulVec_comm h b a]
  simp only [quadraticForm]
  ring

theorem zeros_dot (a : Vector K n) : dot zeros a = 0 := by
  rw [dot_comm, dot_zeros]

theorem zero_hmul (a : Vector K n) : (0 : K) * a = zeros := by
  have hzero : (0.0 : K) = 0 := by norm_num
  ext i hi
  rw [Vector.getElem_hmul, getElem_zeros, hzero, zero_mul]

theorem eq_of_sub_eq_zeros {a b : Vector K n} (h : a - b = zeros) : a = b := by
  have hzero : (0.0 : K) = 0 := by norm_num
  ext i hi
  have hentry : a[i] - b[i] = 0 := by
    rw [← hzero, ← getElem_zeros i hi, ← h, Vector.getElem_sub]
  exact sub_eq_zero.mp hentry

theorem dot_self_pos {a : Vector K n} (h : a ≠ zeros) : 0 < dot a a := by
  have hzero : (0.0 : K) = 0 := by norm_num
  obtain ⟨i, hi⟩ : ∃ i, a.get i ≠ 0 := by
    by_contra hall
    apply h
    ext i hi
    rw [getElem_zeros, hzero]
    exact not_not.mp fun hne => hall ⟨⟨i, hi⟩, hne⟩
  rw [dot_eq_sum]
  exact Finset.sum_pos' (fun i _ => mul_self_nonneg (a.get i))
    ⟨i, Finset.mem_univ i, mul_self_pos.mpr hi⟩

/-- The matrix has a positive quadratic form away from zero. -/
def IsPositiveDefinite (m : Matrix K n) : Prop :=
  ∀ v, v ≠ zeros → 0 < quadraticForm m v

theorem IsPositiveDefinite.nonneg {m : Matrix K n} (h : IsPositiveDefinite m) (v : Vector K n) :
    0 ≤ quadraticForm m v := by
  by_cases hv : v = zeros
  · rw [hv, quadraticForm_zeros]
  · exact le_of_lt (h v hv)

theorem quadraticForm_add_left (a b : Matrix K n) (v : Vector K n) :
    quadraticForm (a + b) v = quadraticForm a v + quadraticForm b v := by
  rw [quadraticForm, add_mulVec, dot_add, quadraticForm, quadraticForm]

theorem quadraticForm_hmul_left (t : K) (m : Matrix K n) (v : Vector K n) :
    quadraticForm (t * m) v = t * quadraticForm m v := by
  rw [quadraticForm, hmul_mulVec, dot_hmul, quadraticForm]

theorem quadraticForm_outer (a v : Vector K n) :
    quadraticForm (outer a a) v = dot a v * dot a v := by
  rw [quadraticForm, outer_mulVec, dot_hmul, dot_comm v]

end Field

end LocalOptimization.Exact
