import Mathlib
import LocalOptimization.Proofs.Euclidean
import LocalOptimization.Proofs.TrustRegion.SteihaugCg

/-!
# Conjugate directions

Without rounding, the residuals of conjugate gradients are orthogonal to each other. In `n`
dimensions at most `n` of them differ from zero, so that the iteration never runs out of its `n`
steps: it meets its tolerance or the boundary before.
-/

namespace LocalOptimization

namespace Exact

variable {n : Nat}

theorem exists_eq_zeros_of_orthogonal (v : Fin (n + 1) → Vector ℝ n)
    (h : ∀ i j, i ≠ j → dot (v i) (v j) = 0) : ∃ i, v i = zeros := by
  by_contra! hne
  have independent : LinearIndependent ℝ fun i => toEuclidean (v i) :=
    linearIndependent_of_ne_zero_of_inner_eq_zero (fun i => toEuclidean_ne_zero (hne i))
      fun i j hij => (inner_toEuclidean _ _).trans (h j i hij.symm)
  have hcard := independent.fintype_card_le_finrank
  rw [finrank_euclideanSpace_fin, Fintype.card_fin] at hcard
  exact Nat.not_succ_le_self n hcard

end Exact

namespace TrustRegion

open Exact (IsSymmetric)

variable {n : Nat} {m : Model ℝ n} {radius tolerance : ℝ} {k : Nat} {v : Vector ℝ n}

namespace ConjugateGradient

/-- The state after `k` steps. -/
noncomputable def stateAt (m : Model ℝ n) (k : Nat) : ConjugateGradient ℝ n :=
  (next m.hessian)^[k] (initial m)

theorem stateAt_zero (m : Model ℝ n) : stateAt m 0 = initial m :=
  rfl

theorem stateAt_succ (m : Model ℝ n) (k : Nat) :
    stateAt m (k + 1) = next m.hessian (stateAt m k) :=
  Function.iterate_succ_apply' _ _ _

theorem dot_residual_next {h : Matrix ℝ n} {s : ConjugateGradient ℝ n} (v : Vector ℝ n) :
    dot v (next h s).r =
      dot v s.r + dot s.r s.r / quadraticForm h s.d * dot v (mulVec h s.d) := by
  rw [next, Exact.dot_add, Exact.dot_hmul]

theorem dot_mulVec_direction {h : Matrix ℝ n} {s : ConjugateGradient ℝ n}
    (hcurvature : 0 < quadraticForm h s.d) (hresidual : 0 < dot s.r s.r) (v : Vector ℝ n) :
    dot v (mulVec h s.d) =
      (dot v (next h s).r - dot v s.r) * (quadraticForm h s.d / dot s.r s.r) := by
  rw [dot_residual_next]
  field_simp
  ring

/-- The first `k` directions curve upwards, and no residual up to the `k`-th vanishes. -/
structure Continues (m : Model ℝ n) (k : Nat) : Prop where
  curved : ∀ i < k, 0 < quadraticForm m.hessian (stateAt m i).d
  residual : ∀ i ≤ k, 0 < dot (stateAt m i).r (stateAt m i).r

theorem continues_zero (hgradient : m.gradient ≠ zeros) : Continues m 0 where
  curved i hi := absurd hi (Nat.not_lt_zero i)
  residual i hi := by
    rw [Nat.le_zero.mp hi]
    exact Exact.dot_self_pos hgradient

theorem Continues.of_le (continues : Continues m k) {j : Nat} (h : j ≤ k) : Continues m j :=
  ⟨fun i hi => continues.curved i (hi.trans_le h), fun i hi => continues.residual i (hi.trans h)⟩

theorem Continues.sound (continues : Continues m k) : (stateAt m k).Sound m := by
  induction k with
  | zero => exact sound_initial m
  | succ k ih =>
      rw [stateAt_succ]
      exact (ih (continues.of_le (Nat.le_succ k))).next (continues.curved k (Nat.lt_succ_self k))

/-- The `k`-th residual is orthogonal to the directions before it, and the `k`-th direction is
conjugate to them. -/
structure Conjugate (m : Model ℝ n) (k : Nat) : Prop where
  residual : ∀ i < k, dot (stateAt m k).r (stateAt m i).d = 0
  direction : ∀ i < k, dot (stateAt m k).d (mulVec m.hessian (stateAt m i).d) = 0

theorem dot_residual_eq_zero (hv : ∀ i < k, dot v (stateAt m i).d = 0) {i : Nat} (hi : i < k) :
    dot v (stateAt m i).r = 0 := by
  cases i with
  | zero =>
      have hfirst := hv 0 hi
      change dot v (-m.gradient) = 0 at hfirst
      rw [Exact.dot_neg, neg_eq_zero] at hfirst
      exact hfirst
  | succ i =>
      have hdirection := hv (i + 1) hi
      have hbefore := hv i (by omega)
      rw [stateAt_succ, direction_next, Exact.dot_add, Exact.dot_neg, Exact.dot_hmul, hbefore,
        mul_zero, add_zero, neg_eq_zero] at hdirection
      rwa [stateAt_succ]

/-- Both hold after one more step: the residuals so far combine old directions, and the product of
the matrix with an old direction is a difference of two of them. -/
theorem Conjugate.succ (conjugate : Conjugate m k) (continues : Continues m (k + 1))
    (symmetric : IsSymmetric m.hessian) : Conjugate m (k + 1) := by
  have before := continues.of_le (Nat.le_succ k)
  have hcurvature (i : Nat) (hi : i < k + 1) := continues.curved i hi
  have hsquare (i : Nat) (hi : i < k + 1) := continues.residual i (le_of_lt hi)
  have hresidual : ∀ i < k + 1, dot (stateAt m (k + 1)).r (stateAt m i).d = 0 := by
    intro i hi
    rw [stateAt_succ]
    rcases Nat.lt_succ_iff_lt_or_eq.mp hi with hlt | rfl
    · rw [Exact.dot_comm, dot_residual_next, Exact.dot_comm, conjugate.residual i hlt,
        Exact.dot_mulVec_comm symmetric, conjugate.direction i hlt, mul_zero, add_zero]
    · exact before.sound.dot_residual_next_direction (hcurvature i hi)
  have horthogonal (i : Nat) (hi : i < k + 1) := dot_residual_eq_zero hresidual hi
  refine ⟨hresidual, fun i hi => ?_⟩
  have hproduct := dot_mulVec_direction (hcurvature i hi) (hsquare i hi) (stateAt m (k + 1)).r
  rw [← stateAt_succ, horthogonal i hi, sub_zero] at hproduct
  rw [stateAt_succ, direction_next, ← stateAt_succ, Exact.add_dot, Exact.neg_dot, Exact.hmul_dot,
    hproduct]
  rcases Nat.lt_succ_iff_lt_or_eq.mp hi with hlt | rfl
  · rw [horthogonal (i + 1) (Nat.succ_lt_succ hlt), conjugate.direction i hlt]
    ring
  · -- The factor of the old direction is chosen for this product to vanish.
    rw [quadraticForm]
    ring

theorem Continues.conjugate (continues : Continues m k) (symmetric : IsSymmetric m.hessian) :
    Conjugate m k := by
  induction k with
  | zero =>
      exact ⟨fun i hi => absurd hi (Nat.not_lt_zero i), fun i hi => absurd hi (Nat.not_lt_zero i)⟩
  | succ k ih => exact (ih (continues.of_le (Nat.le_succ k))).succ continues symmetric

theorem Continues.dot_residual_residual (continues : Continues m k)
    (symmetric : IsSymmetric m.hessian) {i j : Nat} (hij : i < j) (hj : j ≤ k) :
    dot (stateAt m j).r (stateAt m i).r = 0 :=
  dot_residual_eq_zero ((continues.of_le hj).conjugate symmetric).residual hij

theorem not_continues (symmetric : IsSymmetric m.hessian) : ¬ Continues m n := by
  intro continues
  obtain ⟨i, hi⟩ := Exact.exists_eq_zeros_of_orthogonal
    (fun i : Fin (n + 1) => (stateAt m i).r) fun i j hij => by
      rcases Nat.lt_or_gt_of_ne (Fin.val_ne_of_ne hij) with hlt | hgt
      · rw [Exact.dot_comm]
        exact continues.dot_residual_residual symmetric hlt (Nat.le_of_lt_succ j.isLt)
      · exact continues.dot_residual_residual symmetric hgt (Nat.le_of_lt_succ i.isLt)
  have hpos := continues.residual i (Nat.le_of_lt_succ i.isLt)
  rw [hi, Exact.dot_zeros] at hpos
  exact lt_irrefl 0 hpos

theorem Continues.succ (continues : Continues m k)
    (hcurvature : 0 < quadraticForm m.hessian (stateAt m k).d)
    (hresidual : 0 < dot (stateAt m (k + 1)).r (stateAt m (k + 1)).r) : Continues m (k + 1) where
  curved i hi := by
    rcases Nat.lt_succ_iff_lt_or_eq.mp hi with hlt | rfl
    · exact continues.curved i hlt
    · exact hcurvature
  residual i hi := by
    rcases Nat.le_succ_iff.mp hi with hle | rfl
    · exact continues.residual i hle
    · exact hresidual

theorem iteration_of_inside {s : ConjugateGradient ℝ n} {budget : Nat}
    (hinside : (iterate m.hessian radius tolerance (budget + 1) s).onBoundary = false) :
    0 < quadraticForm m.hessian s.d ∧
      (norm (next m.hessian s).r < tolerance ∧
          (iterate m.hessian radius tolerance (budget + 1) s).p = (next m.hessian s).z ∨
        tolerance ≤ norm (next m.hessian s).r ∧
          iterate m.hessian radius tolerance (budget + 1) s =
            iterate m.hessian radius tolerance budget (next m.hessian s)) := by
  rw [iterate_succ, Exact.zero_eq] at hinside ⊢
  split_ifs at hinside ⊢ with hcurvature hball hsmall
  · cases hinside
  · exact ⟨hcurvature, .inl ⟨hsmall, rfl⟩⟩
  · exact ⟨hcurvature, .inr ⟨not_lt.mp hsmall, rfl⟩⟩
  · cases hinside

theorem norm_residual_iterate_lt (htolerance : 0 < tolerance) {budget : Nat}
    (continues : Continues m k) (hend : ¬ Continues m (k + budget))
    (hinside : (iterate m.hessian radius tolerance budget (stateAt m k)).onBoundary = false) :
    norm (m.gradient +
      mulVec m.hessian (iterate m.hessian radius tolerance budget (stateAt m k)).p) <
        tolerance := by
  induction budget generalizing k with
  | zero => exact absurd continues hend
  | succ budget ih =>
      obtain ⟨hcurvature, ⟨hsmall, hp⟩ | ⟨hlarge, hrest⟩⟩ := iteration_of_inside hinside
      · rw [hp, ← (continues.sound.next hcurvature).residual]
        exact hsmall
      · rw [hrest, ← stateAt_succ] at hinside ⊢
        rw [← stateAt_succ] at hlarge
        have hlonger : ¬ Continues m (k + 1 + budget) := by rwa [Nat.add_right_comm, Nat.add_assoc]
        exact ih (continues.succ hcurvature (dot_residual_pos htolerance hlarge)) hlonger hinside

theorem iterate_add_budget (htolerance : 0 < tolerance) {budget : Nat} (extra : Nat)
    (continues : Continues m k) (hend : ¬ Continues m (k + budget)) :
    iterate m.hessian radius tolerance (budget + extra) (stateAt m k) =
      iterate m.hessian radius tolerance budget (stateAt m k) := by
  induction budget generalizing k with
  | zero => exact absurd continues hend
  | succ budget ih =>
      rw [Nat.add_right_comm, iterate_succ, iterate_succ, Exact.zero_eq, ← stateAt_succ]
      split_ifs with hcurvature hball hsmall
      · rfl
      · rfl
      · have hresidual := dot_residual_pos htolerance (not_lt.mp hsmall)
        exact ih (continues.succ hcurvature hresidual)
          (by rwa [Nat.add_right_comm, Nat.add_assoc])
      · rfl

end ConjugateGradient

open ConjugateGradient

/-- Truncated conjugate gradients never run out of their `n` iterations: more of them would not
change the step, and a step that ends inside the ball meets the tolerance. -/
theorem steihaugCg_meets_tolerance (hgradient : m.gradient ≠ zeros)
    (symmetric : IsSymmetric m.hessian) (hradius : 0 < radius) :
    (∀ extra, iterate m.hessian radius (steihaugTolerance m.gradient) (n + extra) (initial m) =
        steihaugCg m radius) ∧
      ((steihaugCg m radius).onBoundary = false →
        norm (mulVec m.hessian (steihaugCg m radius).p + m.gradient) <
          min (1 / 2) (√(norm m.gradient)) * norm m.gradient) := by
  have htolerance := steihaugTolerance_pos (Exact.norm_pos hgradient)
  have start := continues_zero hgradient
  have hend : ¬ Continues m (0 + n) := by
    rw [Nat.zero_add]
    exact not_continues symmetric
  rw [steihaugCg_eq (Model.isStuck_of_ne_zeros hgradient hradius), ← stateAt_zero]
  refine ⟨fun extra => iterate_add_budget htolerance extra start hend, fun hinside => ?_⟩
  rw [← steihaugTolerance_eq, Vector.add_comm add_comm]
  exact norm_residual_iterate_lt htolerance start hend hinside

section Example

/-- The model `12x + x² + xy + y²`. -/
noncomputable def valley : Model ℝ 2 where
  gradient := .ofFn ![12.0, 0.0]
  hessian := .ofFn ![.ofFn ![2.0, 1.0], .ofFn ![1.0, 2.0]]

theorem valley_gradient_ne_zeros : valley.gradient ≠ zeros := by
  intro h
  have hentry : valley.gradient[0] = (zeros : Vector ℝ 2)[0] := by rw [h]
  norm_num [valley] at hentry

theorem isSymmetric_valley : IsSymmetric valley.hessian := by
  intro i j
  fin_cases i <;> fin_cases j <;> rfl

theorem norm_valley_gradient : norm valley.gradient = 12 := by
  have hsquare : dot valley.gradient valley.gradient = 12 * 12 := by
    norm_num [Exact.dot_two, valley]
  rw [norm, hsquare]
  exact Real.sqrt_mul_self (by norm_num)

theorem curvature_valley : quadraticForm valley.hessian (initial valley).d = 288 := by
  norm_num [quadraticForm, Exact.dot_two, valley,
    initial]

theorem curvature_valley_second : quadraticForm valley.hessian #v[-3, 6] = 54 := by
  norm_num [quadraticForm, Exact.dot_two, valley]

theorem next_valley :
    next valley.hessian (initial valley) =
      { z := #v[-6, 0], r := #v[0, -6], d := #v[-3, 6] } := by
  have hsquare : dot (initial valley).r (initial valley).r = 144 := by
    norm_num [Exact.dot_two, valley, initial]
  apply next_eq curvature_valley hsquare
  all_goals
    ext i hi
    interval_cases i <;> norm_num [Exact.dot_two, valley, initial]

theorem next_next_valley :
    next valley.hessian { z := #v[-6, 0], r := #v[0, -6], d := #v[-3, 6] } =
      { z := #v[-8, 4], r := zeros, d := zeros } := by
  have hsquare : dot (#v[0, -6] : Vector ℝ 2) #v[0, -6] = 36 := by
    norm_num [Exact.dot_two]
  apply next_eq curvature_valley_second hsquare
  all_goals
    ext i hi
    interval_cases i <;> norm_num [Exact.dot_two, Exact.dot_zeros, valley]

theorem steihaugCg_valley :
    steihaugCg valley 10 = { p := #v[-8, 4], onBoundary := false } := by
  have hfree := Model.isStuck_of_ne_zeros valley_gradient_ne_zeros (by norm_num : (0 : ℝ) < 10)
  have hball : ¬ 10 ≤ norm (#v[-6, 0] : Vector ℝ 2) := by
    rw [not_le, Exact.norm_lt_iff (by norm_num)]
    norm_num [Exact.dot_two]
  have hlarge : ¬ norm (#v[0, -6] : Vector ℝ 2) < steihaugTolerance valley.gradient := by
    have hlong : ¬ norm (#v[0, -6] : Vector ℝ 2) < 6 := by
      rw [Exact.norm_lt_iff (by norm_num)]
      norm_num [Exact.dot_two]
    linarith [steihaugTolerance_le valley.gradient, norm_valley_gradient]
  have hball' : ¬ 10 ≤ norm (#v[-8, 4] : Vector ℝ 2) := by
    rw [not_le, Exact.norm_lt_iff (by norm_num)]
    norm_num [Exact.dot_two]
  have hsmall : norm (zeros : Vector ℝ 2) < steihaugTolerance valley.gradient := by
    rw [Exact.norm_zeros]
    exact steihaugTolerance_pos (Exact.norm_pos valley_gradient_ne_zeros)
  rw [steihaugCg_eq hfree, iterate_succ, curvature_valley, next_valley, Exact.zero_eq,
    if_pos (by norm_num), if_neg hball, if_neg hlarge, iterate_succ, curvature_valley_second,
    next_next_valley, Exact.zero_eq, if_pos (by norm_num), if_neg hball', if_pos hsmall]

theorem steihaugCg_meets_tolerance_valley :
    valley.gradient ≠ zeros ∧ IsSymmetric valley.hessian ∧ (0 : ℝ) < 10 ∧
      (steihaugCg valley 10).onBoundary = false ∧
      norm (mulVec valley.hessian (steihaugCg valley 10).p + valley.gradient) <
        min (1 / 2) (√(norm valley.gradient)) * norm valley.gradient := by
  have hinside : (steihaugCg valley 10).onBoundary = false := by rw [steihaugCg_valley]
  have hresidual := steihaugCg_meets_tolerance valley_gradient_ne_zeros isSymmetric_valley
    (by norm_num : (0 : ℝ) < 10)
  exact ⟨valley_gradient_ne_zeros, isSymmetric_valley, by norm_num, hinside,
    hresidual.2 hinside⟩

end Example

end TrustRegion

end LocalOptimization
