import Mathlib
import LocalOptimization.Proofs.Constrained.Methods
import LocalOptimization.Proofs.Euclidean
import LocalOptimization.Proofs.QuasiNewton.Descent
import LocalOptimization.Proofs.Univariate

/-!
# Multipliers in exact arithmetic

The multipliers of a result are those with which the gradient of the Lagrangian is the gradient
that the last inner run has made small: that of its surrogate, divided by `t` for the barrier. The
multipliers of the augmented Lagrangian are new while its surrogate has the former ones.
-/

namespace LocalOptimization.Constrained

variable {n : Nat} {ε σ : Type} {f : Objective ℝ n ε} {c : ConstraintSet ℝ n} {x g : Vector ℝ n}

/-- The gradient at `x` of the Lagrangian with multipliers `m`, where the objective has the gradient
`g`. -/
noncomputable def lagrangianGradient (c : ConstraintSet ℝ n) (m : Multipliers ℝ)
    (x g : Vector ℝ n) : Vector ℝ n :=
  Vector.ofFn fun i => g.get i +
    (c.equalities.zipWith (fun h lambda => lambda * (h.gradient x).get i) m.equality).sum +
    (c.inequalities.zipWith (fun g mu => mu * (g.gradient x).get i) m.inequality).sum

theorem toEuclidean_lagrangianGradient (m : Multipliers ℝ) :
    Exact.toEuclidean (lagrangianGradient c m x g) = Exact.toEuclidean g +
      (c.equalities.zipWith (fun h lambda => lambda • Exact.toEuclidean (h.gradient x))
        m.equality).sum +
      (c.inequalities.zipWith (fun g mu => mu • Exact.toEuclidean (g.gradient x))
        m.inequality).sum := by
  ext i
  rw [PiLp.add_apply, PiLp.add_apply, Exact.sum_apply, Exact.sum_apply, List.map_zipWith,
    List.map_zipWith]
  exact Vector.getElem_ofFn ..

theorem getElem_foldl_add {α : Type} {step : Vector ℝ n → α → Vector ℝ n} {term : α → ℝ} {i : Nat}
    (hi : i < n) (hstep : ∀ v a, (step v a)[i] = v[i] + term a) (as : List α) (v : Vector ℝ n) :
    (as.foldl step v)[i] = v[i] + (as.map term).sum := by
  induction as generalizing v with
  | nil => simp
  | cons a as ih => rw [List.foldl_cons, ih, hstep, List.map_cons, List.sum_cons, add_assoc]

theorem getElem_addGradient (k : Constraint ℝ n) (coefficient : ℝ) (v : Vector ℝ n) {i : Nat}
    (hi : i < n) : (k.addGradient x coefficient v)[i] = v[i] + coefficient * (k.gradient x)[i] := by
  rw [Constraint.addGradient, Vector.getElem_add, Vector.getElem_hmul]

theorem getElem_addGradient_of_active (k : Constraint ℝ n) {active coefficient : ℝ}
    (inactive : ¬ 0.0 < active → coefficient = 0) (v : Vector ℝ n) {i : Nat} (hi : i < n) :
    (if 0.0 < active then k.addGradient x coefficient v else v)[i] =
      v[i] + coefficient * (k.gradient x)[i] := by
  by_cases hactive : 0.0 < active
  · rw [if_pos hactive, getElem_addGradient]
  · rw [if_neg hactive, inactive hactive, zero_mul, add_zero]

section Schedule

variable {initial growth tolerance : ℝ} {greatest : Option ℝ} {maxOuterIters : Nat}
variable {inner : QuasiNewton.Config ℝ}

theorem Accepted.initial_pos
    (h : Accepted initial growth greatest tolerance maxOuterIters inner) : 0 < initial :=
  (Exact.isPositive_iff initial).mp h.initialPositive

theorem Accepted.one_lt_growth
    (h : Accepted initial growth greatest tolerance maxOuterIters inner) : 1 < growth := by
  have hgrowth := h.growthAboveOne.2
  rwa [Exact.one_eq] at hgrowth

theorem Accepted.growth_pos
    (h : Accepted initial growth greatest tolerance maxOuterIters inner) : 0 < growth :=
  zero_lt_one.trans h.one_lt_growth

theorem Accepted.capped_pos {cap parameter : ℝ}
    (h : Accepted initial growth (some cap) tolerance maxOuterIters inner)
    (hparameter : 0 < parameter) : 0 < Scalar.min (parameter * growth) cap := by
  have hcap : initial ≤ cap := (h.greatestAboveInitial cap rfl).2
  rw [Exact.min_eq]
  exact lt_min (mul_pos hparameter h.growth_pos) (h.initial_pos.trans_le hcap)

end Schedule

namespace Penalty

theorem excess_eq (k : Constraint ℝ n) : excess k x = max (k.value x) 0 := by
  rw [excess, Exact.max_eq]
  exact congrArg (max (k.value x)) Exact.zero_eq

theorem excess_nonneg (k : Constraint ℝ n) : 0 ≤ excess k x := by
  rw [excess_eq]
  exact le_max_right _ _

theorem gradient_surrogate {weight : ℝ} (h : f.gradient x = .ok g) :
    (surrogate f c weight).gradient x =
      .ok (lagrangianGradient c (multipliers c weight x) x g) := by
  rw [surrogate]
  dsimp only
  rw [h]
  apply congrArg Except.ok
  ext i hi
  have hequality : ∀ v (k : Constraint ℝ n),
      (k.addGradient x (2.0 * weight * k.value x) v)[i] =
        v[i] + 2.0 * weight * k.value x * (k.gradient x)[i] :=
    fun v k => getElem_addGradient k _ v hi
  have hinequality : ∀ v (k : Constraint ℝ n),
      (if 0.0 < excess k x then k.addGradient x (2.0 * weight * excess k x) v else v)[i] =
        v[i] + 2.0 * weight * excess k x * (k.gradient x)[i] := by
    intro v k
    apply getElem_addGradient_of_active
    intro hinactive
    rw [Exact.zero_eq, not_lt] at hinactive
    rw [le_antisymm hinactive (excess_nonneg k), mul_zero]
  rw [getElem_foldl_add hi hinequality, getElem_foldl_add hi hequality]
  simp only [lagrangianGradient, multipliers, Vector.getElem_ofFn, List.zipWith_map_right,
    List.zipWith_self]
  rfl

theorem fits_multipliers {weight : ℝ} : (multipliers c weight x).Fits c := by
  constructor <;> simp [multipliers]

theorem multipliers_nonneg {weight : ℝ} (hweight : 0 ≤ weight) :
    ∀ mu ∈ (multipliers c weight x).inequality, 0 ≤ mu := by
  intro mu hmu
  obtain ⟨k, -, rfl⟩ := List.mem_map.mp hmu
  have htwo : (0 : ℝ) ≤ 2.0 := by norm_num
  exact mul_nonneg (mul_nonneg htwo hweight) (excess_nonneg k)

theorem exists_lastIteration {config : Config ℝ} {o : Observer σ (Record ℝ n)} {w : σ}
    {sol : Solution ℝ n} (h : (minimize f c x config o w).1 = .ok sol) :
    ∃ s inner, 0 < s.parameter ∧ (reduction f c config).LastIteration f x s inner sol := by
  have valid := valid_of_minimize h
  rw [minimize_of_valid valid] at h
  apply Reduction.exists_lastIteration h valid.allowed
  · intro first hstart
    obtain ⟨-, objective, -, -, rfl⟩ := Reduction.start_eq_ok_iff.mp hstart
    exact valid.initial_pos
  · intro i s t inner hs advances
    rw [advances.parameter]
    exact valid.capped_pos hs

theorem multipliers_of_lastIteration {config : Config ℝ} {s : Reduction.State ℝ n}
    {inner : QuasiNewton.Solution ℝ n} {sol : Solution ℝ n}
    (last : (reduction f c config).LastIteration f x s inner sol) :
    sol.multipliers = multipliers c s.parameter sol.last.x ∧
      ∃ g, f.gradient sol.last.x = .ok g ∧ (surrogate f c s.parameter).gradient sol.last.x =
        .ok (lagrangianGradient c sol.multipliers sol.last.x g) := by
  have hmultipliers : sol.multipliers = multipliers c s.parameter sol.last.x :=
    last.advances.multipliers
  obtain ⟨g, hg, -⟩ := Except.bind_eq_ok_iff.mp last.advances.evaluates.gradient
  exact ⟨hmultipliers, g, hg, hmultipliers ▸ gradient_surrogate hg⟩

end Penalty

namespace AugmentedLagrangian

theorem shiftedInequality_eq (rho : ℝ) (k : Constraint ℝ n) (mu : ℝ) :
    shiftedInequality rho x k mu = max (mu + rho * k.value x) 0 := by
  rw [shiftedInequality, Exact.max_eq]
  exact congrArg (max _) Exact.zero_eq

theorem shiftedInequality_nonneg (rho : ℝ) (k : Constraint ℝ n) (mu : ℝ) :
    0 ≤ shiftedInequality rho x k mu := by
  rw [shiftedInequality_eq]
  exact le_max_right _ _

/-- The gradient of the surrogate with the former multipliers is that of the Lagrangian with the
new ones. -/
theorem gradient_surrogate {rho : ℝ} {m : Multipliers ℝ} (h : f.gradient x = .ok g) :
    (surrogate f c rho m).gradient x =
      .ok (lagrangianGradient c (updateMultipliers c rho x m) x g) := by
  rw [surrogate]
  dsimp only
  rw [h]
  apply congrArg Except.ok
  ext i hi
  have hequality : ∀ v (p : Constraint ℝ n × ℝ),
      (p.1.addGradient x (shiftedEquality rho x p.1 p.2) v)[i] =
        v[i] + shiftedEquality rho x p.1 p.2 * (p.1.gradient x)[i] :=
    fun v p => getElem_addGradient p.1 _ v hi
  have hinequality : ∀ v (p : Constraint ℝ n × ℝ),
      (if 0.0 < shiftedInequality rho x p.1 p.2 then
        p.1.addGradient x (shiftedInequality rho x p.1 p.2) v else v)[i] =
        v[i] + shiftedInequality rho x p.1 p.2 * (p.1.gradient x)[i] := by
    intro v p
    apply getElem_addGradient_of_active
    intro hinactive
    rw [Exact.zero_eq, not_lt] at hinactive
    exact le_antisymm hinactive (shiftedInequality_nonneg rho p.1 p.2)
  refine (getElem_foldl_add hi hinequality _ _).trans ?_
  rw [getElem_foldl_add hi hequality]
  simp only [lagrangianGradient, updateMultipliers, Vector.getElem_ofFn, List.zip_eq_zipWith,
    List.map_zipWith, List.zipWith_zipWith_right, List.zipWith3_same_left]
  rfl

theorem updateMultipliers_nonneg {rho : ℝ} {m : Multipliers ℝ} :
    ∀ mu ∈ (updateMultipliers c rho x m).inequality, 0 ≤ mu := by
  intro mu hmu
  obtain ⟨i, hi, rfl⟩ := List.getElem_of_mem hmu
  simp only [updateMultipliers, List.getElem_zipWith]
  exact shiftedInequality_nonneg _ _ _

theorem multipliers_of_lastIteration {config : Config ℝ} {s : Reduction.State ℝ n}
    {inner : QuasiNewton.Solution ℝ n} {sol : Solution ℝ n}
    (last : (reduction f c config).LastIteration f x s inner sol) :
    sol.multipliers = updateMultipliers c s.parameter sol.last.x s.multipliers ∧
      ∃ g, f.gradient sol.last.x = .ok g ∧
        (surrogate f c s.parameter s.multipliers).gradient sol.last.x =
          .ok (lagrangianGradient c sol.multipliers sol.last.x g) := by
  have hmultipliers : sol.multipliers =
      updateMultipliers c s.parameter sol.last.x s.multipliers := last.advances.multipliers
  obtain ⟨g, hg, -⟩ := Except.bind_eq_ok_iff.mp last.advances.evaluates.gradient
  exact ⟨hmultipliers, g, hg, hmultipliers ▸ gradient_surrogate hg⟩

end AugmentedLagrangian

namespace Barrier

theorem fits_multipliers {t : ℝ} (equalities : c.equalities = []) :
    (multipliers c t x).Fits c := by
  constructor <;> simp [multipliers, equalities]

theorem interior_of_finite {t v : ℝ} (h : (surrogate f c t).isFiniteAt x v = true) :
    ∀ k ∈ c.inequalities, k.value x < 0 := by
  have hinterior := (c.interior_iff x).mp (interior_of_isFiniteAt h)
  intro k hk
  exact Exact.zero_eq ▸ hinterior k hk

theorem gradientTol_innerConfig {config : Config ℝ} {t : ℝ} :
    ((reduction f c config).innerConfig t).gradientTol = config.inner.gradientTol * max t 1 := by
  have hmax : Scalar.max t 1.0 = max t 1 :=
    (Exact.max_eq t _).trans (congrArg (max t) Exact.one_eq)
  exact congrArg (config.inner.gradientTol * ·) hmax

theorem multiplier_pos {t : ℝ} (ht : 0 < t) {v : ℝ} (hv : v < 0) :
    0 < -1.0 / (t * v) ∧ -(-1.0 / (t * v) * v) = 1 / t := by
  have hproduct : t * v < 0 := mul_neg_of_pos_of_neg ht hv
  rw [Exact.one_eq]
  constructor
  · exact div_pos_of_neg_of_neg neg_one_lt_zero hproduct
  · have hne : v ≠ 0 := ne_of_lt hv
    field_simp

theorem pos_of_mem_zip_multipliers {t : ℝ} (ht : 0 < t)
    (hinterior : ∀ k ∈ c.inequalities, k.value x < 0) :
    ∀ p ∈ c.inequalities.zip (multipliers c t x).inequality,
      0 < p.2 ∧ -(p.2 * p.1.value x) = 1 / t := by
  intro p hp
  simp only [multipliers, List.zip_eq_zipWith, List.zipWith_map_right, List.zipWith_self,
    List.mem_map] at hp
  obtain ⟨k, hk, rfl⟩ := hp
  exact multiplier_pos ht (hinterior k hk)

theorem dualityGap_eq_sum {t : ℝ} (ht : 0 < t)
    (hinterior : ∀ k ∈ c.inequalities, k.value x < 0) :
    dualityGap c t = (c.inequalities.zipWith (fun k mu => -(mu * k.value x))
      (multipliers c t x).inequality).sum := by
  have hproducts : c.inequalities.map (fun k => -(-1.0 / (t * k.value x) * k.value x)) =
      c.inequalities.map fun _ => 1 / t :=
    List.map_congr_left fun k hk => (multiplier_pos ht (hinterior k hk)).2
  have hsum : (c.inequalities.map fun _ => 1 / t).sum = dualityGap c t := by
    rw [List.map_const', List.sum_replicate, nsmul_eq_mul, mul_one_div]
    rfl
  simp only [multipliers, List.zipWith_map_right, List.zipWith_self]
  rw [← hsum, ← hproducts]

/-- The coefficients with which the gradients of the constraints enter that of the barrier. -/
noncomputable def forces (c : ConstraintSet ℝ n) (x : Vector ℝ n) : Multipliers ℝ where
  inequality := c.inequalities.map fun k => -1.0 / k.value x

theorem gradient_surrogate_eq_forces {t : ℝ} (h : f.gradient x = .ok g) :
    (surrogate f c t).gradient x = .ok (lagrangianGradient c (forces c x) x (t * g)) := by
  rw [surrogate]
  dsimp only
  rw [h]
  apply congrArg Except.ok
  ext i hi
  have hinequality : ∀ v (k : Constraint ℝ n),
      (k.addGradient x (-1.0 / k.value x) v)[i] =
        v[i] + -1.0 / k.value x * (k.gradient x)[i] :=
    fun v k => getElem_addGradient k _ v hi
  rw [getElem_foldl_add hi hinequality]
  simp only [lagrangianGradient, forces, Vector.getElem_ofFn, List.zipWith_map_right,
    List.zipWith_self, List.zipWith_nil_right, List.sum_nil, add_zero]
  rfl

theorem gradient_surrogate {t : ℝ} (ht : t ≠ 0) (h : f.gradient x = .ok g) :
    (surrogate f c t).gradient x =
      .ok (t * lagrangianGradient c (multipliers c t x) x g) := by
  rw [gradient_surrogate_eq_forces h]
  apply congrArg Except.ok
  ext i hi
  have hterm : ∀ k : Constraint ℝ n, -1.0 / k.value x * (k.gradient x).get ⟨i, hi⟩ =
      t * (-1.0 / (t * k.value x) * (k.gradient x).get ⟨i, hi⟩) := by
    intro k
    rw [← mul_assoc, ← mul_div_assoc, mul_div_mul_left _ _ ht]
  have hobjective : (t * g).get ⟨i, hi⟩ = t * g.get ⟨i, hi⟩ := Vector.getElem_hmul ..
  rw [Vector.getElem_hmul]
  simp only [lagrangianGradient, forces, multipliers, Vector.getElem_ofFn, List.zipWith_map_right,
    List.zipWith_self, List.zipWith_nil_right, List.sum_nil, add_zero, mul_add, hobjective, hterm,
    List.sum_map_mul_left]

theorem exists_lastIteration {config : Config ℝ} {o : Observer σ (Record ℝ n)} {w : σ}
    {sol : Solution ℝ n} (h : (minimize f c x config o w).1 = .ok sol) :
    ∃ s inner, 0 < s.parameter ∧ (reduction f c config).LastIteration f x s inner sol := by
  obtain ⟨valid, equalities, interior⟩ := valid_of_minimize h
  rw [minimize_of_valid valid equalities interior] at h
  apply Reduction.exists_lastIteration h valid.allowed
  · intro first hstart
    obtain ⟨-, objective, -, -, rfl⟩ := Reduction.start_eq_ok_iff.mp hstart
    exact valid.initial_pos
  · intro i s t inner hs advances
    rw [advances.parameter]
    exact mul_pos hs valid.growth_pos

end Barrier

/-- The multipliers of a result are those of the last inner run. For the penalty and the augmented
Lagrangian, the gradient of the Lagrangian at the result is the gradient of the last surrogate;
for the barrier it is so after multiplication by `t`. Where the last inner run has converged, the
gradient of the Lagrangian is as small as the tolerance of that run says. Multipliers of
inequalities are not negative, and those of the barrier are positive, with products `1/t` that add
up to the duality gap. -/
theorem gradient_lagrangian_of_minimize (f : Objective ℝ n ε) (c : ConstraintSet ℝ n)
    (x : Vector ℝ n) (o : Observer σ (Record ℝ n)) (w : σ) (sol : Solution ℝ n) :
    (∀ config, (Penalty.minimize f c x config o w).1 = .ok sol →
      ∃ s inner g, (Penalty.reduction f c config).LastIteration f x s inner sol ∧
        f.gradient sol.last.x = .ok g ∧
        (Penalty.surrogate f c sol.last.parameter).gradient sol.last.x =
          .ok (lagrangianGradient c sol.multipliers sol.last.x g) ∧
        (sol.last.innerStatus = some .converged →
          norm (lagrangianGradient c sol.multipliers sol.last.x g) < config.inner.gradientTol) ∧
        sol.multipliers.Fits c ∧ ∀ mu ∈ sol.multipliers.inequality, 0 ≤ mu) ∧
    (∀ config, (AugmentedLagrangian.minimize f c x config o w).1 = .ok sol →
      ∃ s inner g, (AugmentedLagrangian.reduction f c config).LastIteration f x s inner sol ∧
        f.gradient sol.last.x = .ok g ∧
        (AugmentedLagrangian.surrogate f c sol.last.parameter s.multipliers).gradient sol.last.x =
          .ok (lagrangianGradient c sol.multipliers sol.last.x g) ∧
        (sol.last.innerStatus = some .converged →
          norm (lagrangianGradient c sol.multipliers sol.last.x g) < config.inner.gradientTol) ∧
        sol.multipliers.Fits c ∧ ∀ mu ∈ sol.multipliers.inequality, 0 ≤ mu) ∧
    ∀ config, (Barrier.minimize f c x config o w).1 = .ok sol →
      ∃ s inner g t, (Barrier.reduction f c config).LastIteration f x s inner sol ∧
        t = sol.last.parameter ∧ 0 < t ∧ f.gradient sol.last.x = .ok g ∧
        (Barrier.surrogate f c t).gradient sol.last.x =
          .ok (t * lagrangianGradient c sol.multipliers sol.last.x g) ∧
        (sol.last.innerStatus = some .converged →
          norm (lagrangianGradient c sol.multipliers sol.last.x g) <
            config.inner.gradientTol * max t 1 / t) ∧
        sol.multipliers.Fits c ∧
        (∀ p ∈ c.inequalities.zip sol.multipliers.inequality,
          0 < p.2 ∧ -(p.2 * p.1.value sol.last.x) = 1 / t) ∧
        sol.last.measure = .dualityGap (c.inequalities.zipWith
          (fun k mu => -(mu * k.value sol.last.x)) sol.multipliers.inequality).sum := by
  refine ⟨?_, ?_, ?_⟩
  · intro config h
    obtain ⟨s, inner, hparameter, last⟩ := Penalty.exists_lastIteration h
    have hused : sol.last.parameter = s.parameter := last.advances.usedParameter
    obtain ⟨hmultipliers, g, hg, hgradient⟩ := Penalty.multipliers_of_lastIteration last
    refine ⟨s, inner, g, last, hg, hused ▸ hgradient, last.advances.norm_lt hgradient, ?_, ?_⟩
    · exact hmultipliers ▸ Penalty.fits_multipliers
    · exact hmultipliers ▸ Penalty.multipliers_nonneg (le_of_lt hparameter)
  · intro config h
    obtain ⟨s, inner, fits, last⟩ := AugmentedLagrangian.exists_lastIteration h
    have hused : sol.last.parameter = s.parameter := last.advances.usedParameter
    obtain ⟨hmultipliers, g, hg, hgradient⟩ := AugmentedLagrangian.multipliers_of_lastIteration last
    refine ⟨s, inner, g, last, hg, hused ▸ hgradient, last.advances.norm_lt hgradient, ?_, ?_⟩
    · exact hmultipliers ▸ AugmentedLagrangian.fits_updateMultipliers fits _ _
    · exact hmultipliers ▸ AugmentedLagrangian.updateMultipliers_nonneg
  · intro config h
    obtain ⟨s, inner, hparameter, last⟩ := Barrier.exists_lastIteration h
    obtain ⟨-, equalities, -⟩ := Barrier.valid_of_minimize h
    have advances := last.advances
    have hused : s.parameter = sol.last.parameter := advances.usedParameter.symm
    have hmultipliers : sol.multipliers = Barrier.multipliers c s.parameter sol.last.x :=
      advances.multipliers
    have hmeasure : sol.last.measure = .dualityGap (Barrier.dualityGap c s.parameter) :=
      advances.measure
    obtain ⟨g, hg, -⟩ := Except.bind_eq_ok_iff.mp advances.evaluates.gradient
    have hgradient : (Barrier.surrogate f c s.parameter).gradient sol.last.x =
        .ok (s.parameter * lagrangianGradient c sol.multipliers sol.last.x g) :=
      hmultipliers ▸ Barrier.gradient_surrogate (ne_of_gt hparameter) hg
    have hinterior : ∀ k ∈ c.inequalities, k.value sol.last.x < 0 :=
      Barrier.interior_of_finite advances.evaluates.finite
    refine ⟨s, inner, g, s.parameter, last, hused, hparameter, hg, hgradient, ?_, ?_, ?_, ?_⟩
    · intro converged
      have hnorm := advances.norm_lt hgradient converged
      rw [Exact.norm_hmul (le_of_lt hparameter), Barrier.gradientTol_innerConfig] at hnorm
      rwa [lt_div_iff₀' hparameter]
    · exact hmultipliers ▸ Barrier.fits_multipliers equalities
    · exact hmultipliers ▸ Barrier.pos_of_mem_zip_multipliers hparameter hinterior
    · rw [hmeasure, hmultipliers, Barrier.dualityGap_eq_sum hparameter hinterior]

section Example

/-- The line that falls by 1. -/
noncomputable def line : Objective ℝ 1 Empty :=
  .univariate (fun x => -x) (fun _ => -1)

/-- The constraint `x = 0`. -/
noncomputable def atOrigin : ConstraintSet ℝ 1 where
  equalities := [.univariate id (fun _ => 1)]

/-- The constraint `x ≤ 1`. -/
noncomputable def belowOne : ConstraintSet ℝ 1 where
  inequalities := [.univariate (· - 1) (fun _ => 1)]

theorem validate_defaultInner : (defaultInner : QuasiNewton.Config ℝ).validate = .ok () :=
  QuasiNewton.Config.validate_of_gradientTol_pos (by norm_num)

theorem exists_minimize_of_zero_gradient {r : Reduction ℝ n ε} {budget : Nat} {limit : Option Nat}
    {o : Observer σ (Record ℝ n)} {w : σ} {objective value : ℝ}
    (hobjective : f.value x = .ok objective) (hdomain : f.domain x = true)
    (hvalue : (r.surrogate r.initialParameter r.initialMultipliers).value x = .ok value)
    (hgradient : (r.surrogate r.initialParameter r.initialMultipliers).gradient x = .ok g)
    (hsurrogate : (r.surrogate r.initialParameter r.initialMultipliers).domain x = true)
    (hzero : ∀ i (hi : i < n), g[i] = 0)
    (hvalid : (r.innerConfig r.initialParameter).validate = .ok ())
    (htolerance : 0 < (r.innerConfig r.initialParameter).gradientTol)
    (met : (r.measure r.initialParameter x).value < r.tolerance) (allowed : 0 < budget) :
    ∃ sol, (r.minimize f x budget limit o w).1 = .ok sol ∧
      sol.last.innerStatus = some .converged := by
  have hstart := Reduction.start_eq_ok_iff (r := r) |>.mpr
    ⟨Exact.allFinite x, objective, hobjective, by rw [Objective.isFiniteAt, hdomain]; rfl, rfl⟩
  have hfinite : ((r.surrogate r.initialParameter r.initialMultipliers).domain x &&
      ({ x, value, gradient := g } : Evaluation ℝ n).isFinite) = true := by
    rw [hsurrogate, Evaluation.isFinite, Exact.allFinite]
    rfl
  have hinner := QuasiNewton.start_eq_ok_iff.mpr ⟨hvalid, Exact.allFinite x, _,
    Objective.evaluate_eq_ok_iff.mpr ⟨rfl, hvalue, hgradient⟩, hfinite, rfl⟩
  have hnorm : norm g < (r.innerConfig r.initialParameter).gradientTol :=
    (Exact.norm_eq_zero hzero).trans_lt htolerance
  obtain ⟨sol, hsol, -, -, -, hstatus, -⟩ :=
    Reduction.exists_minimize_of_stationary budget limit o w hstart hinner hnorm met allowed
  exact ⟨sol, hsol, hstatus⟩

theorem accepted_default {greatest : Option ℝ} {tolerance : ℝ} {maxOuterIters : Nat}
    (hgreatest : ∀ cap, greatest = some cap → (1.0 : ℝ) ≤ cap) (htolerance : 0 < tolerance)
    (allowed : 0 < maxOuterIters) :
    Accepted (1.0 : ℝ) 10.0 greatest tolerance maxOuterIters defaultInner := by
  refine ⟨?_, ⟨rfl, ?_⟩, fun cap hcap => ⟨rfl, hgreatest cap hcap⟩,
    (Exact.isPositive_iff tolerance).mpr htolerance, allowed, validate_defaultInner⟩
  · rw [Exact.isPositive_iff]
    norm_num
  · norm_num

theorem exists_minimize_penalty : ∃ sol,
    (Penalty.minimize line atOrigin #v[1 / 2] { tolerance := 2 } .silent ()).1 = .ok sol ∧
      sol.last.innerStatus = some .converged := by
  have hvalid : ({ tolerance := 2 } : Penalty.Config ℝ).Valid := by
    refine accepted_default ?_ two_pos (by decide)
    rintro cap ⟨⟩
    norm_num
  rw [Penalty.minimize_of_valid hvalid]
  apply exists_minimize_of_zero_gradient rfl rfl rfl rfl rfl
  · intro i hi
    have hentry : (-1 : ℝ) + 2.0 * 1.0 * (1 / 2) * 1 = 0 := by norm_num
    obtain rfl : i = 0 := by omega
    refine (getElem_addGradient _ _ _ hi).trans ?_
    exact hentry
  · exact validate_defaultInner
  · change (0 : ℝ) < 1e-8
    norm_num
  · have hmeasure : Scalar.max (0.0 : ℝ) |1 / 2| < 2 := by
      rw [Exact.max_eq]
      norm_num
    exact hmeasure
  · decide

theorem AugmentedLagrangian.valid_of_allowed {budget : Nat} (allowed : 0 < budget) :
    ({ tolerance := 2, maxOuterIters := budget } : AugmentedLagrangian.Config ℝ).Valid := by
  refine accepted_default ?_ two_pos allowed
  rintro cap ⟨⟩
  norm_num

theorem AugmentedLagrangian.exists_minimize_of_allowed {budget : Nat} (allowed : 0 < budget) :
    ∃ sol, (AugmentedLagrangian.minimize line atOrigin #v[1]
        { tolerance := 2, maxOuterIters := budget } .silent ()).1 = .ok sol ∧
      sol.last.innerStatus = some .converged := by
  rw [AugmentedLagrangian.minimize_of_valid (valid_of_allowed allowed)]
  apply exists_minimize_of_zero_gradient rfl rfl rfl rfl rfl
  · intro i hi
    have hentry : (-1 : ℝ) + (0.0 + 1.0 * 1) * 1 = 0 := by norm_num
    obtain rfl : i = 0 := by omega
    refine (getElem_addGradient _ _ _ hi).trans ?_
    exact hentry
  · exact validate_defaultInner
  · change (0 : ℝ) < 1e-8
    norm_num
  · have hmeasure : Scalar.max (0.0 : ℝ) |1| < 2 := by
      rw [Exact.max_eq]
      norm_num
    exact hmeasure
  · exact allowed

theorem exists_minimize_augmentedLagrangian : ∃ sol,
    (AugmentedLagrangian.minimize line atOrigin #v[1] { tolerance := 2 } .silent ()).1 = .ok sol ∧
      sol.last.innerStatus = some .converged :=
  AugmentedLagrangian.exists_minimize_of_allowed (by decide : 0 < 50)

theorem exists_minimize_barrier : ∃ sol,
    (Barrier.minimize line belowOne #v[0] { tolerance := 2 } .silent ()).1 = .ok sol ∧
      sol.last.innerStatus = some .converged := by
  have hvalid : ({ tolerance := 2 } : Barrier.Config ℝ).Valid :=
    accepted_default (by rintro cap ⟨⟩) two_pos (by decide)
  have hinterior : belowOne.interior #v[0] = true := by
    norm_num [ConstraintSet.interior_iff, belowOne, Constraint.univariate]
  rw [Barrier.minimize_of_valid hvalid rfl hinterior]
  have hvalue : ((Barrier.surrogate line belowOne 1.0).value #v[0] : Except Empty ℝ) =
      .ok (1.0 * -0 - Scalar.sum [Scalar.log (-(0 - 1))]) := by
    simp only [Barrier.surrogate, hinterior]
    rfl
  have hdomain : (Barrier.surrogate line belowOne 1.0).domain #v[0] = true :=
    Bool.and_eq_true_iff.mpr ⟨hinterior, rfl⟩
  have hmax : Scalar.max (1.0 : ℝ) 1.0 = 1 := by
    rw [Exact.max_eq]
    norm_num
  have htolerance : 0 < ((Barrier.reduction line belowOne { tolerance := 2 }).innerConfig
      1.0).gradientTol := by
    change (0 : ℝ) < 1e-8 * Scalar.max 1.0 1.0
    rw [hmax]
    norm_num
  apply exists_minimize_of_zero_gradient rfl rfl hvalue rfl hdomain
  · intro i hi
    have hentry : (1.0 : ℝ) * -1 + -1.0 / (0 - 1) * 1 = 0 := by norm_num
    obtain rfl : i = 0 := by omega
    refine (getElem_addGradient _ _ _ hi).trans ?_
    rw [Vector.getElem_hmul]
    exact hentry
  · exact QuasiNewton.Config.validate_of_gradientTol_pos htolerance
  · exact htolerance
  · have hgap : ((1 : ℕ) : ℝ) / 1.0 < 2 := by norm_num
    exact hgap
  · decide

theorem gradient_lagrangian_of_line :
    (∃ sol g, (Penalty.minimize line atOrigin #v[1 / 2] { tolerance := 2 } .silent ()).1 = .ok sol ∧
      line.gradient sol.last.x = .ok g ∧
      norm (lagrangianGradient atOrigin sol.multipliers sol.last.x g) < 1e-8) ∧
    (∃ sol g, (AugmentedLagrangian.minimize line atOrigin #v[1] { tolerance := 2 } .silent
        ()).1 = .ok sol ∧ line.gradient sol.last.x = .ok g ∧
      norm (lagrangianGradient atOrigin sol.multipliers sol.last.x g) < 1e-8) ∧
    ∃ sol g, (Barrier.minimize line belowOne #v[0] { tolerance := 2 } .silent ()).1 = .ok sol ∧
      line.gradient sol.last.x = .ok g ∧
      norm (lagrangianGradient belowOne sol.multipliers sol.last.x g) <
        1e-8 * max sol.last.parameter 1 / sol.last.parameter ∧
      ∀ p ∈ belowOne.inequalities.zip sol.multipliers.inequality,
        0 < p.2 ∧ -(p.2 * p.1.value sol.last.x) = 1 / sol.last.parameter := by
  refine ⟨?_, ?_, ?_⟩
  · obtain ⟨sol, h, converged⟩ := exists_minimize_penalty
    obtain ⟨s, inner, g, -, hg, -, hnorm, -⟩ :=
      (gradient_lagrangian_of_minimize line atOrigin #v[1 / 2] .silent () sol).1 _ h
    exact ⟨sol, g, h, hg, hnorm converged⟩
  · obtain ⟨sol, h, converged⟩ := exists_minimize_augmentedLagrangian
    obtain ⟨s, inner, g, -, hg, -, hnorm, -⟩ :=
      (gradient_lagrangian_of_minimize line atOrigin #v[1] .silent () sol).2.1 _ h
    exact ⟨sol, g, h, hg, hnorm converged⟩
  · obtain ⟨sol, h, converged⟩ := exists_minimize_barrier
    obtain ⟨s, inner, g, t, -, rfl, -, hg, -, hnorm, -, hproducts, -⟩ :=
      (gradient_lagrangian_of_minimize line belowOne #v[0] .silent () sol).2.2 _ h
    exact ⟨sol, g, h, hg, hnorm converged, hproducts⟩

end Example

end LocalOptimization.Constrained
