import Mathlib
import LocalOptimization.Proofs.Constrained.Lagrangian

/-!
# Surrogates return their true gradients

Where the objective and the constraints are differentiable and return their true gradients, so does
every surrogate. A square `max(0, v)²` is differentiable also at its kink, where its derivative
vanishes from both sides.
-/

namespace LocalOptimization

open Filter Topology
open Exact (toEuclidean ofEuclidean)

variable {n : Nat} {ε : Type}

/-- Close to `x` the objective is finite and equal to `phi`, whose true gradient at `x` is the `g`
that the objective returns. -/
structure Objective.Differentiates (f : Objective ℝ n ε) (x : Vector ℝ n)
    (phi : EuclideanSpace ℝ (Fin n) → ℝ) (g : Vector ℝ n) : Prop where
  near : ∀ᶠ y in 𝓝 (toEuclidean x),
    f.domain (ofEuclidean y) = true ∧ f.value (ofEuclidean y) = .ok (phi y)
  hasGradientAt : HasGradientAt phi (toEuclidean g) (toEuclidean x)
  gradient : f.gradient x = .ok g

/-- The objective is differentiable at `x` and returns its true gradient there. -/
def Objective.HasTrueGradientAt (f : Objective ℝ n ε) (x : Vector ℝ n) : Prop :=
  ∃ phi g, f.Differentiates x phi g

/-- The constraint is differentiable at `x` and returns its true gradient there. -/
def Constraint.HasTrueGradientAt (k : Constraint ℝ n) (x : Vector ℝ n) : Prop :=
  HasGradientAt (fun y => k.value (ofEuclidean y)) (toEuclidean (k.gradient x)) (toEuclidean x)

namespace Constraint.HasTrueGradientAt

variable {k : Constraint ℝ n} {x : Vector ℝ n}

theorem comp (h : k.HasTrueGradientAt x) {psi : ℝ → ℝ} {d : ℝ}
    (hpsi : HasDerivAt psi d (k.value x)) :
    HasGradientAt (fun y => psi (k.value (ofEuclidean y))) (d • toEuclidean (k.gradient x))
      (toEuclidean x) := by
  refine Exact.hasGradientAt_comp ?_ h
  rwa [Exact.ofEuclidean_toEuclidean]

theorem eventually_neg (h : k.HasTrueGradientAt x) (hneg : k.value x < 0) :
    ∀ᶠ y in 𝓝 (toEuclidean x), k.value (ofEuclidean y) < 0 := by
  rw [← Exact.ofEuclidean_toEuclidean x] at hneg
  exact (HasGradientAt.continuousAt h).eventually (gt_mem_nhds hneg)

end Constraint.HasTrueGradientAt

namespace Constrained

variable {f : Objective ℝ n ε} {c : ConstraintSet ℝ n} {x g : Vector ℝ n}
  {phi : EuclideanSpace ℝ (Fin n) → ℝ}

theorem hasDerivAt_mul_self (a : ℝ) : HasDerivAt (fun v : ℝ => v * v) (2 * a) a := by
  refine ((hasDerivAt_id' a).mul (hasDerivAt_id' a)).congr_deriv ?_
  ring

theorem hasDerivAt_max_mul_max (a : ℝ) :
    HasDerivAt (fun v : ℝ => max v 0 * max v 0) (2 * max a 0) a := by
  rcases lt_trichotomy a 0 with hneg | rfl | hpos
  · rw [max_eq_right hneg.le, mul_zero]
    refine (hasDerivAt_const a (0 : ℝ)).congr_of_eventuallyEq ?_
    filter_upwards [Iio_mem_nhds hneg] with t ht
    rw [max_eq_right (le_of_lt ht), mul_zero]
  · -- At the kink no formula holds on both sides, but the square is of second order.
    have hsquare : (fun v : ℝ => max v 0 * max v 0) =O[𝓝 0] fun v => ‖v - 0‖ ^ 2 := by
      refine Asymptotics.IsBigO.of_bound 1 (Eventually.of_forall fun t => ?_)
      rw [sub_zero, norm_pow, norm_norm, norm_mul, one_mul, ← sq]
      exact pow_le_pow_left₀ (norm_nonneg _) (abs_max_le_max_abs_abs.trans (by simp)) 2
    have hflat : HasFDerivAt (fun v : ℝ => max v 0 * max v 0) (0 : ℝ →L[ℝ] ℝ) 0 :=
      hsquare.hasFDerivAt one_lt_two
    rw [max_self, mul_zero]
    exact hflat.hasDerivAt
  · rw [max_eq_left hpos.le]
    refine (hasDerivAt_mul_self a).congr_of_eventuallyEq ?_
    filter_upwards [Ioi_mem_nhds hpos] with t ht
    rw [max_eq_left (le_of_lt ht)]

section Terms

theorem hasDerivAt_weighted {psi : ℝ → ℝ} {a d : ℝ} (h : HasDerivAt psi (2 * d) a) (weight : ℝ) :
    HasDerivAt (fun v => weight * psi v) (2.0 * weight * d) a := by
  refine (h.const_mul weight).congr_deriv ?_
  norm_num
  ring

theorem hasDerivAt_equalityTerm (rho lambda a : ℝ) :
    HasDerivAt (fun v => lambda * v + 0.5 * rho * v * v) (lambda + rho * a) a := by
  have hlinear := (hasDerivAt_id' a).const_mul lambda
  have hsquare := ((hasDerivAt_id' a).const_mul (0.5 * rho)).mul (hasDerivAt_id' a)
  refine (hlinear.add hsquare).congr_deriv ?_
  norm_num
  ring

theorem hasDerivAt_inequalityTerm {rho : ℝ} (hrho : rho ≠ 0) (mu a : ℝ) :
    HasDerivAt (fun v => (max (mu + rho * v) 0 * max (mu + rho * v) 0 - mu * mu) / (2.0 * rho))
      (max (mu + rho * a) 0) a := by
  have hshift : HasDerivAt (fun v => mu + rho * v) rho a :=
    (((hasDerivAt_id' a).const_mul rho).const_add mu).congr_deriv (mul_one rho)
  have hsquare := (hasDerivAt_max_mul_max (mu + rho * a)).comp a hshift
  refine ((hsquare.sub_const (mu * mu)).div_const (2.0 * rho)).congr_deriv ?_
  norm_num
  field_simp

theorem hasDerivAt_logBarrier {a : ℝ} (ha : a < 0) :
    HasDerivAt (fun v => -Real.log (-v)) (-1.0 / a) a := by
  simp only [Real.log_neg_eq_log]
  refine (Real.hasDerivAt_log ha.ne).neg.congr_deriv ?_
  rw [Exact.one_eq, neg_div, one_div]

end Terms

section Surrogates

theorem Penalty.differentiates (weight : ℝ) (hf : f.Differentiates x phi g)
    (hequalities : ∀ k ∈ c.equalities, k.HasTrueGradientAt x)
    (hinequalities : ∀ k ∈ c.inequalities, k.HasTrueGradientAt x) :
    (surrogate f c weight).Differentiates x
      (fun y => phi y +
        (c.equalities.map fun k =>
          weight * (k.value (ofEuclidean y) * k.value (ofEuclidean y))).sum +
        (c.inequalities.map fun k =>
          weight * (max (k.value (ofEuclidean y)) 0 * max (k.value (ofEuclidean y)) 0)).sum)
      (lagrangianGradient c (multipliers c weight x) x g) where
  near := by
    filter_upwards [hf.near] with y ⟨hdomain, hvalue⟩
    refine ⟨hdomain, ?_⟩
    rw [surrogate]
    dsimp only
    rw [hvalue, Exact.sum_eq, Exact.sum_eq, List.sum_map_mul_left, List.sum_map_mul_left,
      add_assoc, ← mul_add]
    simp only [excess_eq]
    rfl
  hasGradientAt := by
    rw [toEuclidean_lagrangianGradient]
    simp only [multipliers, List.zipWith_map_right, List.zipWith_self, excess_eq]
    refine Exact.hasGradientAt_add (Exact.hasGradientAt_add hf.hasGradientAt ?_) ?_
    · refine Exact.hasGradientAt_sum_map fun k hk => ?_
      exact (hequalities k hk).comp (hasDerivAt_weighted (hasDerivAt_mul_self _) weight)
    · refine Exact.hasGradientAt_sum_map fun k hk => ?_
      exact (hinequalities k hk).comp (hasDerivAt_weighted (hasDerivAt_max_mul_max _) weight)
  gradient := gradient_surrogate hf.gradient

theorem AugmentedLagrangian.differentiates {rho : ℝ} (m : Multipliers ℝ) (hrho : rho ≠ 0)
    (hf : f.Differentiates x phi g)
    (hequalities : ∀ k ∈ c.equalities, k.HasTrueGradientAt x)
    (hinequalities : ∀ k ∈ c.inequalities, k.HasTrueGradientAt x) :
    (surrogate f c rho m).Differentiates x
      (fun y => phi y +
        (c.equalities.zipWith (equalityTerm rho (ofEuclidean y)) m.equality).sum +
        (c.inequalities.zipWith (inequalityTerm rho (ofEuclidean y)) m.inequality).sum)
      (lagrangianGradient c (updateMultipliers c rho x m) x g) where
  near := by
    filter_upwards [hf.near] with y ⟨hdomain, hvalue⟩
    refine ⟨hdomain, ?_⟩
    rw [surrogate]
    dsimp only
    rw [hvalue, Exact.sum_eq, Exact.sum_eq]
    rfl
  hasGradientAt := by
    rw [toEuclidean_lagrangianGradient]
    simp only [updateMultipliers, List.zipWith_zipWith_right, List.zipWith3_same_left]
    refine Exact.hasGradientAt_add (Exact.hasGradientAt_add hf.hasGradientAt ?_) ?_
    · refine Exact.hasGradientAt_sum_zipWith _ fun k hk lambda => ?_
      exact (hequalities k hk).comp (hasDerivAt_equalityTerm rho lambda _)
    · refine Exact.hasGradientAt_sum_zipWith _ fun k hk mu => ?_
      simp only [inequalityTerm, shiftedInequality_eq]
      exact (hinequalities k hk).comp (hasDerivAt_inequalityTerm hrho mu _)
  gradient := gradient_surrogate hf.gradient

theorem Barrier.differentiates (t : ℝ) (hf : f.Differentiates x phi g)
    (hinequalities : ∀ k ∈ c.inequalities, k.HasTrueGradientAt x)
    (hinterior : ∀ k ∈ c.inequalities, k.value x < 0) :
    (surrogate f c t).Differentiates x
      (fun y => t * phi y +
        (c.inequalities.map fun k => -Real.log (-k.value (ofEuclidean y))).sum)
      (lagrangianGradient c (forces c x) x (t * g)) where
  near := by
    have hneighbours : ∀ᶠ y in 𝓝 (toEuclidean x), ∀ k ∈ c.inequalities,
        k.value (ofEuclidean y) < 0 := by
      refine (eventually_all_finite (List.finite_toSet c.inequalities)).mpr fun k hk => ?_
      exact (hinequalities k hk).eventually_neg (hinterior k hk)
    filter_upwards [hf.near, hneighbours] with y ⟨hdomain, hvalue⟩ hneg
    have hinside : c.interior (ofEuclidean y) = true := by
      rw [c.interior_iff, Exact.zero_eq]
      exact hneg
    refine ⟨Bool.and_eq_true_iff.mpr ⟨hinside, hdomain⟩, ?_⟩
    rw [surrogate]
    dsimp only
    rw [if_pos hinside, hvalue, Exact.sum_eq]
    have hsum : -(c.inequalities.map fun k => Real.log (-k.value (ofEuclidean y))).sum =
        (c.inequalities.map fun k => -Real.log (-k.value (ofEuclidean y))).sum := by
      rw [List.sum_neg, List.map_map]
      rfl
    rw [← hsum, ← sub_eq_add_neg]
    rfl
  hasGradientAt := by
    rw [toEuclidean_lagrangianGradient, Exact.toEuclidean_hmul]
    simp only [forces, List.zipWith_map_right, List.zipWith_self, List.zipWith_nil_right,
      List.sum_nil, add_zero]
    refine Exact.hasGradientAt_add ?_ ?_
    · exact Exact.hasGradientAt_comp ((hasDerivAt_id' _).const_mul t |>.congr_deriv (mul_one t))
        hf.hasGradientAt
    · refine Exact.hasGradientAt_sum_map fun k hk => ?_
      exact (hinequalities k hk).comp (hasDerivAt_logBarrier (hinterior k hk))
  gradient := gradient_surrogate_eq_forces hf.gradient

end Surrogates

/-- Where the objective and the constraints are differentiable and return their true gradients, so
do the surrogates: with any weight, with any multipliers and in the whole interior. -/
theorem surrogates_have_true_gradients (f : Objective ℝ n ε) (c : ConstraintSet ℝ n)
    (x : Vector ℝ n) (hf : f.HasTrueGradientAt x)
    (hequalities : ∀ k ∈ c.equalities, k.HasTrueGradientAt x)
    (hinequalities : ∀ k ∈ c.inequalities, k.HasTrueGradientAt x) :
    (∀ weight, (Penalty.surrogate f c weight).HasTrueGradientAt x) ∧
      (∀ rho m, rho ≠ 0 → (AugmentedLagrangian.surrogate f c rho m).HasTrueGradientAt x) ∧
      ∀ t, (∀ k ∈ c.inequalities, k.value x < 0) →
        (Barrier.surrogate f c t).HasTrueGradientAt x := by
  obtain ⟨phi, g, hf⟩ := hf
  refine ⟨?_, ?_, ?_⟩
  · intro weight
    exact ⟨_, _, Penalty.differentiates weight hf hequalities hinequalities⟩
  · intro rho m hrho
    exact ⟨_, _, AugmentedLagrangian.differentiates m hrho hf hequalities hinequalities⟩
  · intro t hinterior
    exact ⟨_, _, Barrier.differentiates t hf hinequalities hinterior⟩

section Example

theorem hasGradientAt_univariate {value : ℝ → ℝ} {a d : ℝ} (h : HasDerivAt value d a) :
    HasGradientAt (fun y => value ((ofEuclidean y).get (Fin.last 0))) (toEuclidean #v[d])
      (toEuclidean #v[a]) := by
  have hcoordinate : ∀ y : EuclideanSpace ℝ (Fin 1),
      (ofEuclidean y).get (Fin.last 0) = y (Fin.last 0) := by
    intro y
    rw [ofEuclidean, Vector.get_eq_getElem, Vector.getElem_ofFn]
  have hvector : toEuclidean #v[d] = d • EuclideanSpace.single (Fin.last 0) (1 : ℝ) := by
    ext i
    obtain rfl := Subsingleton.elim i (Fin.last 0)
    rw [PiLp.smul_apply, PiLp.single_apply, if_pos rfl, smul_eq_mul, mul_one]
    rfl
  simp only [hcoordinate]
  rw [hvector]
  exact Exact.hasGradientAt_comp h (Exact.hasGradientAt_coordinate _ _)

theorem hasTrueGradientAt_univariate {value derivative : ℝ → ℝ} {a : ℝ}
    (h : HasDerivAt value (derivative a) a) :
    (Objective.univariate value derivative).HasTrueGradientAt #v[a] ∧
      (Constraint.univariate value derivative).HasTrueGradientAt #v[a] :=
  ⟨⟨_, _, Eventually.of_forall fun _ => ⟨rfl, rfl⟩, hasGradientAt_univariate h, rfl⟩,
    hasGradientAt_univariate h⟩

theorem surrogates_have_true_gradients_at_kink :
    (∀ weight, (Penalty.surrogate QuasiNewton.parabola belowOne weight).HasTrueGradientAt #v[1]) ∧
      (AugmentedLagrangian.surrogate QuasiNewton.parabola belowOne 1
        { inequality := [0] }).HasTrueGradientAt #v[1] ∧
      ∀ t, (Barrier.surrogate QuasiNewton.parabola belowOne t).HasTrueGradientAt #v[0] := by
  have hparabola : ∀ a, QuasiNewton.parabola.HasTrueGradientAt #v[a] :=
    fun a => (hasTrueGradientAt_univariate (hasDerivAt_mul_self a)).1
  have hbelow : ∀ a, ∀ k ∈ belowOne.inequalities, k.HasTrueGradientAt #v[a] := by
    intro a k hk
    obtain rfl := List.mem_singleton.mp hk
    exact (hasTrueGradientAt_univariate ((hasDerivAt_id' a).sub_const 1)).2
  obtain ⟨hpenalty, hlagrangian, -⟩ := surrogates_have_true_gradients QuasiNewton.parabola belowOne
    #v[1] (hparabola 1) (List.forall_mem_nil _) (hbelow 1)
  obtain ⟨-, -, hbarrier⟩ := surrogates_have_true_gradients QuasiNewton.parabola belowOne
    #v[0] (hparabola 0) (List.forall_mem_nil _) (hbelow 0)
  refine ⟨hpenalty, hlagrangian 1 _ one_ne_zero, fun t => hbarrier t fun k hk => ?_⟩
  obtain rfl := List.mem_singleton.mp hk
  have hvalue : (0 : ℝ) - 1 < 0 := by norm_num
  exact hvalue

end Example

end Constrained

end LocalOptimization
