import Mathlib
import LocalOptimization.Proofs.Curvature.SecantEquation
import LocalOptimization.Proofs.Euclidean

/-!
# The least change of a Jacobian

A secant update turns its Jacobian into one that satisfies the secant equation and agrees with the
former one on all vectors orthogonal to the step. Among all matrices that satisfy the equation, none
is nearer to the former Jacobian in the Frobenius norm.
-/

namespace LocalOptimization

variable {n : Nat}

namespace Exact

/-- The square root of the sum of the squares of all entries. -/
noncomputable def frobeniusNorm (a : Matrix ℝ n) : ℝ :=
  √(∑ i : Fin n, ∑ j : Fin n, (a.get i).get j ^ 2)

theorem frobeniusNorm_le {a b : Matrix ℝ n}
    (h : ∀ i : Fin n, dot (a.get i) (a.get i) ≤ dot (b.get i) (b.get i)) :
    frobeniusNorm a ≤ frobeniusNorm b := by
  have hrow (m : Matrix ℝ n) (i : Fin n) :
      ∑ j : Fin n, (m.get i).get j ^ 2 = dot (m.get i) (m.get i) := by
    simp only [dot_eq_sum, sq]
  apply Real.sqrt_le_sqrt
  apply Finset.sum_le_sum
  intro i _
  rw [hrow, hrow]
  exact h i

theorem dot_projection_le {s : Vector ℝ n} (hs : 0 < dot s s) (d : Vector ℝ n) :
    dot ((dot d s / dot s s) * s) ((dot d s / dot s s) * s) ≤ dot d d := by
  have hschwarz : dot d s * dot d s ≤ dot d d * dot s s := by
    simpa only [inner_toEuclidean, dot_comm s d] using
      real_inner_mul_inner_self_le (toEuclidean d) (toEuclidean s)
  calc
    dot ((dot d s / dot s s) * s) ((dot d s / dot s s) * s) = dot d s * dot d s / dot s s := by
      rw [dot_hmul, hmul_dot]
      field_simp
    _ ≤ dot d d := (div_le_iff₀ hs).mpr hschwarz

end Exact

namespace Secant

variable {m m' : Secant ℝ n} {s y : Vector ℝ n}

theorem jacobian_of_update (h : m.update? s y = some m') :
    m'.jacobian = m.jacobian + (1 / dot s s) * outer (y - mulVec m.jacobian s) s := by
  rw [update?, Exact.one_eq] at h
  split at h <;> cases h
  rfl

theorem mulVec_of_orthogonal (h : m.update? s y = some m') {v : Vector ℝ n} (hv : dot v s = 0) :
    mulVec m'.jacobian v = mulVec m.jacobian v := by
  rw [jacobian_of_update h, Exact.add_mulVec, Exact.hmul_mulVec, Exact.outer_mulVec,
    Exact.dot_comm s v, hv]
  ext i hi
  simp

/-- Every row changes by the part along the step of the change that the secant equation asks for. -/
theorem get_jacobian_sub (h : m.update? s y = some m') {a : Matrix ℝ n} (ha : mulVec a s = y)
    (i : Fin n) :
    (m'.jacobian - m.jacobian).get i =
      (dot ((a - m.jacobian).get i) s / dot s s) * s := by
  have hresidual : y - mulVec m.jacobian s = mulVec (a - m.jacobian) s := by
    rw [Exact.sub_mulVec, ha]
  rw [jacobian_of_update h, hresidual]
  ext j hj
  simp only [Vector.get_eq_getElem, Vector.getElem_sub, Vector.getElem_add, Vector.getElem_hmul,
    getElem_outer, getElem_mulVec]
  ring

theorem frobeniusNorm_sub_le (h : m.update? s y = some m') (hs : 0 < dot s s) {a : Matrix ℝ n}
    (ha : mulVec a s = y) :
    Exact.frobeniusNorm (m'.jacobian - m.jacobian) ≤ Exact.frobeniusNorm (a - m.jacobian) := by
  apply Exact.frobeniusNorm_le
  intro i
  rw [get_jacobian_sub h ha]
  exact Exact.dot_projection_le hs _

/-- A step that is long enough is taken in. The new Jacobian differs from the former one only along
the step, and among all matrices that satisfy the secant equation it is a nearest one. -/
theorem update_is_least_change (m : Secant ℝ n) (s y : Vector ℝ n) (long : 1e-24 < dot s s) :
    ∃ m', m.update? s y = some m' ∧ mulVec m'.jacobian s = y ∧
      (∀ v, dot v s = 0 → mulVec m'.jacobian v = mulVec m.jacobian v) ∧
      ∀ a : Matrix ℝ n, mulVec a s = y →
        Exact.frobeniusNorm (m'.jacobian - m.jacobian) ≤ Exact.frobeniusNorm (a - m.jacobian) := by
  obtain ⟨m', h⟩ : ∃ m', m.update? s y = some m' :=
    Option.ne_none_iff_exists'.mp (mt update_eq_none_iff.mp (not_le.mpr long))
  have hs : 0 < dot s s := lt_trans (by norm_num) long
  exact ⟨m', h, mulVec_of_update h, fun v => mulVec_of_orthogonal h,
    fun a => frobeniusNorm_sub_le h hs⟩

theorem update_is_least_change_shear : ∃ m',
    ({ jacobian := #v[#v[1, 3], #v[0, 1]] } : Secant ℝ 2).update? #v[1, 2] #v[2, 7] = some m' ∧
      mulVec m'.jacobian #v[2, -1] = #v[-1, -1] ∧
      Exact.frobeniusNorm (m'.jacobian - #v[#v[1, 3], #v[0, 1]]) ≤
        Exact.frobeniusNorm (#v[#v[2, 0], #v[1, 3]] - #v[#v[1, 3], #v[0, 1]]) := by
  obtain ⟨m', h, -, horthogonal, hleast⟩ :=
    update_is_least_change { jacobian := #v[#v[1, 3], #v[0, 1]] } #v[1, 2] #v[2, 7]
      (by norm_num [Exact.dot_two])
  refine ⟨m', h, ?_, hleast _ ?_⟩
  · rw [horthogonal _ (by norm_num [Exact.dot_two])]
    ext i hi
    interval_cases i <;> norm_num [Exact.dot_two]
  · ext i hi
    interval_cases i <;> norm_num [Exact.dot_two]

end Secant

end LocalOptimization
