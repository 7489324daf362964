import Mathlib
import LocalOptimization.Proofs.Exact
import LocalOptimization.Proofs.QuasiNewton

/-!
# Directions of descent

In exact arithmetic every curvature model proposes a direction of descent, whatever pairs it was
offered. Limited-memory BFGS and Davidon-Fletcher-Powell take in a pair only where it keeps their
inverse Hessian positive definite; symmetric rank-one updates check the direction itself. A run
therefore never replaces the direction of its model.
-/

namespace LocalOptimization

namespace Lbfgs

section Field

variable {K : Type} [Field K] [LinearOrder K] [IsStrictOrderedRing K] {n : Nat}

attribute [local instance] Exact.arithmetic

theorem minCurvature_pos : (0 : K) < minCurvature := by
  norm_num [minCurvature]

/-- The step and the change of the gradient along it form an acute angle. -/
structure Correction.Curved (c : Correction K n) : Prop where
  pos : 0 < dot c.y c.s
  rho_eq : c.rho = 1.0 / dot c.y c.s

theorem Correction.Curved.rho_pos {c : Correction K n} (h : c.Curved) : 0 < c.rho := by
  have hone : (1.0 : K) = 1 := by norm_num
  rw [h.rho_eq, hone]
  exact one_div_pos.mpr h.pos

theorem scale_pos {corrections : List (Correction K n)} (h : ∀ c ∈ corrections, c.Curved) :
    0 < scale corrections := by
  cases corrections with
  | nil => norm_num [scale]
  | cons c older =>
      have hpos := (h c List.mem_cons_self).pos
      have hy : c.y ≠ zeros := by
        intro hzero
        rw [hzero, Exact.zeros_dot] at hpos
        exact lt_irrefl 0 hpos
      rw [scale, Exact.dot_comm]
      exact div_pos hpos (Exact.dot_self_pos hy)

theorem dot_applyInverse_cons (gamma : K) (c : Correction K n) (older : List (Correction K n))
    (q : Vector K n) :
    let p := q - (c.rho * dot c.s q) * c.y
    dot q (applyInverse gamma (c :: older) q) =
      dot p (applyInverse gamma older p) + c.rho * (dot c.s q * dot c.s q) := by
  dsimp only [applyInverse]
  generalize applyInverse gamma older (q - (c.rho * dot c.s q) * c.y) = r
  rw [Exact.dot_add, Exact.dot_hmul, Exact.sub_dot, Exact.hmul_dot, Exact.dot_comm q c.s]
  ring

theorem dot_applyInverse_pos {gamma : K} (hgamma : 0 < gamma) {corrections : List (Correction K n)}
    (h : ∀ c ∈ corrections, c.Curved) {q : Vector K n} (hq : q ≠ zeros) :
    0 < dot q (applyInverse gamma corrections q) := by
  induction corrections generalizing q with
  | nil =>
      rw [applyInverse, Exact.dot_hmul]
      exact mul_pos hgamma (Exact.dot_self_pos hq)
  | cons c older ih =>
      have hrho := (h c List.mem_cons_self).rho_pos
      have holder : ∀ c ∈ older, c.Curved := fun c hc => h c (List.mem_cons_of_mem _ hc)
      rw [dot_applyInverse_cons]
      by_cases hp : q - (c.rho * dot c.s q) * c.y = zeros
      · -- The vector is a multiple of `y`, and the step has a part along it.
        have hs : dot c.s q ≠ 0 := by
          intro hs
          apply hq
          rw [Exact.eq_of_sub_eq_zeros hp, hs, mul_zero, Exact.zero_hmul]
        rw [hp, Exact.zeros_dot, zero_add]
        exact mul_pos hrho (mul_self_pos.mpr hs)
      · have hpart := ih holder hp
        have hstep := mul_nonneg hrho.le (mul_self_nonneg (dot c.s q))
        exact add_pos_of_pos_of_nonneg hpart hstep

theorem curved_of_update {m m' : Lbfgs K n} {s y : Vector K n}
    (h : ∀ c ∈ m.corrections, c.Curved) (hupdate : m.update? s y = some m') :
    ∀ c ∈ m'.corrections, c.Curved := by
  rw [update?] at hupdate
  split at hupdate
  next hcurved =>
    cases hupdate
    intro c hc
    rcases List.mem_cons.mp (List.mem_of_mem_take hc) with rfl | hold
    · exact ⟨minCurvature_pos.trans hcurved.1, rfl⟩
    · exact h c hold
  next => cases hupdate

theorem dot_direction_neg {m : Lbfgs K n} (h : ∀ c ∈ m.corrections, c.Curved) {g : Vector K n}
    (hg : g ≠ zeros) : dot g (m.direction g) < 0 := by
  rw [direction, Exact.dot_neg, neg_lt_zero]
  exact dot_applyInverse_pos (scale_pos h) h hg

end Field

end Lbfgs

namespace DavidonFletcherPowell

/-- The inverse Hessian after a pair that is not skipped. -/
def updated {K : Type} [Arithmetic K] {n : Nat} (h : Matrix K n) (s y : Vector K n) : Matrix K n :=
  h + (-1.0 / quadraticForm h y) * outer (mulVec h y) (mulVec h y) + (1.0 / dot y s) * outer s s

section Field

variable {K : Type} [Field K] [LinearOrder K] {n : Nat}

attribute [local instance] Exact.arithmetic

theorem isSymmetric_updated {h : Matrix K n} (symmetric : Exact.IsSymmetric h) (s y : Vector K n) :
    Exact.IsSymmetric (updated h s y) :=
  (symmetric.add ((Exact.isSymmetric_outer _).hmul _)).add ((Exact.isSymmetric_outer s).hmul _)

variable [IsStrictOrderedRing K]

structure Sound (m : DavidonFletcherPowell K n) : Prop where
  symmetric : Exact.IsSymmetric m.inverseHessian
  positive : Exact.IsPositiveDefinite m.inverseHessian

theorem sound_initial : (initial : DavidonFletcherPowell K n).Sound where
  symmetric := Exact.isSymmetric_identity
  positive v hv := by
    rw [initial, quadraticForm, Exact.identity_mulVec]
    exact Exact.dot_self_pos hv

theorem quadraticForm_updated {h : Matrix K n} (symmetric : Exact.IsSymmetric h) {s y : Vector K n}
    (hy : quadraticForm h y ≠ 0) (v : Vector K n) :
    quadraticForm (updated h s y) v =
      quadraticForm h (v + -(dot v (mulVec h y) / quadraticForm h y) * y)
        + dot s v * dot s v / dot y s := by
  have hone : (1.0 : K) = 1 := by norm_num
  rw [Exact.quadraticForm_add symmetric, Exact.quadraticForm_hmul, Exact.mulVec_hmul,
    Exact.dot_hmul, updated, Exact.quadraticForm_add_left, Exact.quadraticForm_add_left,
    Exact.quadraticForm_hmul_left, Exact.quadraticForm_hmul_left, Exact.quadraticForm_outer,
    Exact.quadraticForm_outer, Exact.dot_comm (mulVec h y), hone]
  field_simp
  ring

theorem isPositiveDefinite_updated {h : Matrix K n} (symmetric : Exact.IsSymmetric h)
    (positive : Exact.IsPositiveDefinite h) {s y : Vector K n} (hys : 0 < dot y s)
    (hy : 0 < quadraticForm h y) : Exact.IsPositiveDefinite (updated h s y) := by
  intro v hv
  rw [quadraticForm_updated symmetric hy.ne']
  generalize dot v (mulVec h y) / quadraticForm h y = t
  by_cases hrest : v + -t * y = zeros
  · have hmultiple : v = t * y := by
      apply Exact.eq_of_sub_eq_zeros
      rw [← hrest, Exact.neg_hmul]
      ext i hi
      simp only [Vector.getElem_sub, Vector.getElem_add, Vector.getElem_neg, sub_eq_add_neg]
    have ht : t ≠ 0 := by
      rintro rfl
      exact hv (hmultiple.trans (Exact.zero_hmul y))
    have hsv : dot s v = t * dot y s := by
      rw [hmultiple, Exact.dot_hmul, Exact.dot_comm]
    rw [hrest, Exact.quadraticForm_zeros, zero_add, hsv]
    exact div_pos (mul_self_pos.mpr (mul_ne_zero ht hys.ne')) hys
  · exact add_pos_of_pos_of_nonneg (positive _ hrest)
      (div_nonneg (mul_self_nonneg _) hys.le)

theorem Sound.update {m m' : DavidonFletcherPowell K n} (sound : m.Sound) {s y : Vector K n}
    (hupdate : m.update? s y = some m') : m'.Sound := by
  rw [update?] at hupdate
  split at hupdate
  next hcurved =>
    cases hupdate
    have hys := Lbfgs.minCurvature_pos.trans hcurved.1
    have hy := Lbfgs.minCurvature_pos.trans hcurved.2
    exact ⟨isSymmetric_updated sound.symmetric s y,
      isPositiveDefinite_updated sound.symmetric sound.positive hys hy⟩
  next => cases hupdate

theorem Sound.dot_direction_neg {m : DavidonFletcherPowell K n} (sound : m.Sound) {g : Vector K n}
    (hg : g ≠ zeros) : dot g (m.direction g) < 0 := by
  rw [direction, Exact.dot_neg, neg_lt_zero]
  exact sound.positive g hg

end Field

end DavidonFletcherPowell

variable {n : Nat}

theorem SymmetricRankOne.dot_direction_neg (m : SymmetricRankOne ℝ n) {g : Vector ℝ n}
    (hg : g ≠ zeros) : dot g (m.direction g) < 0 := by
  rw [direction]
  split
  next hnewton =>
    have hslope := of_decide_eq_true (Bool.and_eq_true_iff.mp hnewton).2
    rwa [Exact.zero_eq] at hslope
  next =>
    rw [Exact.dot_neg, neg_lt_zero]
    exact Exact.dot_self_pos hg

namespace Curvature

/-- The model after a pair, skipped or not. -/
def learn {K : Type} [Scalar K] (m : Curvature K n) (p : Vector K n × Vector K n) : Curvature K n :=
  (m.update? p.1 p.2).getD m

/-- The model implies a positive definite inverse Hessian, where it needs one. -/
def Sound : Curvature ℝ n → Prop
  | lbfgs m => ∀ c ∈ m.corrections, c.Curved
  | sr1 _ => True
  | dfp m => m.Sound

theorem sound_initial (choice : Choice) : (choice.initial : Curvature ℝ n).Sound := by
  cases choice with
  | lbfgs memory => exact fun c hc => absurd hc List.not_mem_nil
  | sr1 => trivial
  | dfp => exact DavidonFletcherPowell.sound_initial

theorem Sound.update {m m' : Curvature ℝ n} (sound : m.Sound) {s y : Vector ℝ n}
    (hupdate : m.update? s y = some m') : m'.Sound := by
  cases m with
  | lbfgs model =>
      obtain ⟨model', hmodel, rfl⟩ := Option.map_eq_some_iff.mp hupdate
      exact Lbfgs.curved_of_update sound hmodel
  | sr1 model =>
      obtain ⟨model', -, rfl⟩ := Option.map_eq_some_iff.mp hupdate
      trivial
  | dfp model =>
      obtain ⟨model', hmodel, rfl⟩ := Option.map_eq_some_iff.mp hupdate
      exact DavidonFletcherPowell.Sound.update sound hmodel

theorem Sound.learn {m : Curvature ℝ n} (sound : m.Sound) (p : Vector ℝ n × Vector ℝ n) :
    (m.learn p).Sound := by
  rw [Curvature.learn]
  cases hupdate : m.update? p.1 p.2 with
  | none => exact sound
  | some m' => exact sound.update hupdate

theorem sound_foldl_learn {m : Curvature ℝ n} (sound : m.Sound)
    (pairs : List (Vector ℝ n × Vector ℝ n)) : (pairs.foldl Curvature.learn m).Sound := by
  induction pairs generalizing m with
  | nil => exact sound
  | cons p pairs ih => exact ih (sound.learn p)

theorem Sound.dot_direction_neg {m : Curvature ℝ n} (sound : m.Sound) {g : Vector ℝ n}
    (hg : g ≠ zeros) : dot g (m.direction g) < 0 := by
  cases m with
  | lbfgs model => exact Lbfgs.dot_direction_neg sound hg
  | sr1 model => exact model.dot_direction_neg hg
  | dfp model => exact DavidonFletcherPowell.Sound.dot_direction_neg sound hg

end Curvature

end LocalOptimization
