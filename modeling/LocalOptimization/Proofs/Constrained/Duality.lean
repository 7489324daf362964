import Mathlib
import LocalOptimization.Proofs.Constrained.Lagrangian
import LocalOptimization.Proofs.Procedure.Reports

/-!
# Dual bounds on convex problems

On a convex problem the objective and the inequalities lie above their tangents, and the equalities
on theirs. With multipliers that are not negative the Lagrangian at a point is then no higher than
the objective at any feasible point, but for the part of its gradient along the way there. The
multipliers of a result have a small gradient of the Lagrangian wherever the last inner run has
converged.
-/

namespace LocalOptimization

variable {n : Nat} {ε σ : Type}

/-- Where it is finite, the objective lies above the tangents that its gradients give. -/
def Objective.AboveTangents (f : Objective ℝ n ε) : Prop :=
  ∀ x y v w g, f.domain x = true → f.domain y = true → f.value x = .ok v →
    f.gradient x = .ok g → f.value y = .ok w → v + dot g (y - x) ≤ w

/-- The constraint lies above the tangents that its gradients give. -/
def Constraint.AboveTangents (k : Constraint ℝ n) : Prop :=
  ∀ x y, k.value x + dot (k.gradient x) (y - x) ≤ k.value y

/-- The constraint lies on the tangents that its gradients give. -/
def Constraint.OnTangents (k : Constraint ℝ n) : Prop :=
  ∀ x y, k.value y = k.value x + dot (k.gradient x) (y - x)

structure ConstraintSet.Feasible (c : ConstraintSet ℝ n) (y : Vector ℝ n) : Prop where
  equalities : ∀ k ∈ c.equalities, k.value y = 0
  inequalities : ∀ k ∈ c.inequalities, k.value y ≤ 0

namespace Constrained

variable {f : Objective ℝ n ε} {c : ConstraintSet ℝ n} {m : Multipliers ℝ} {x y g : Vector ℝ n}
  {v w : ℝ}

/-- The Lagrangian at `x` with multipliers `m`, where the objective has the value `v`. -/
noncomputable def lagrangian (c : ConstraintSet ℝ n) (m : Multipliers ℝ) (x : Vector ℝ n) (v : ℝ) :
    ℝ :=
  v + (c.equalities.zipWith (fun h lambda => lambda * h.value x) m.equality).sum +
    (c.inequalities.zipWith (fun g mu => mu * g.value x) m.inequality).sum

section WeakDuality

theorem dot_lagrangianGradient (m : Multipliers ℝ) (x g d : Vector ℝ n) :
    dot (lagrangianGradient c m x g) d = dot g d +
      (c.equalities.zipWith (fun h lambda => lambda * dot (h.gradient x) d) m.equality).sum +
      (c.inequalities.zipWith (fun g mu => mu * dot (g.gradient x) d) m.inequality).sum := by
  rw [← Exact.inner_toEuclidean, toEuclidean_lagrangianGradient, inner_add_right, inner_add_right,
    Exact.inner_sum, Exact.inner_sum, List.map_zipWith, List.map_zipWith]
  simp only [real_inner_smul_right, Exact.inner_toEuclidean]

theorem sum_zipWith_add_nonpos {α β : Type} {u v : α → β → ℝ} {as : List α} {bs : List β}
    (h : ∀ a ∈ as, ∀ b ∈ bs, u a b + v a b ≤ 0) :
    (as.zipWith u bs).sum + (as.zipWith v bs).sum ≤ 0 := by
  induction as generalizing bs with
  | nil => simp
  | cons a as ih =>
      cases bs with
      | nil => simp
      | cons b bs =>
          have hfirst := h a List.mem_cons_self b List.mem_cons_self
          have hrest := ih fun a ha b hb =>
            h a (List.mem_cons_of_mem _ ha) b (List.mem_cons_of_mem _ hb)
          rw [List.zipWith_cons_cons, List.zipWith_cons_cons, List.sum_cons, List.sum_cons]
          linarith

variable (hf : f.AboveTangents) (hequalities : ∀ k ∈ c.equalities, k.OnTangents)
  (hinequalities : ∀ k ∈ c.inequalities, k.AboveTangents)

include hf hequalities hinequalities

theorem lagrangian_add_dot_le
    (nonneg : ∀ mu ∈ m.inequality, 0 ≤ mu) (hx : f.Evaluates { x, value := v, gradient := g })
    (hdomain : f.domain y = true) (hy : f.value y = .ok w) (feasible : c.Feasible y) :
    lagrangian c m x v + dot (lagrangianGradient c m x g) (y - x) ≤ w := by
  have hobjective := hf x y v w g (Bool.and_eq_true_iff.mp hx.finite).1 hdomain hx.value hx.gradient
    hy
  have hequality :
      (c.equalities.zipWith (fun h lambda => lambda * h.value x) m.equality).sum +
        (c.equalities.zipWith (fun h lambda => lambda * dot (h.gradient x) (y - x))
          m.equality).sum ≤ 0 := by
    refine sum_zipWith_add_nonpos fun h hh lambda _ => ?_
    rw [← mul_add, ← hequalities h hh x y, feasible.equalities h hh, mul_zero]
  have hinequality :
      (c.inequalities.zipWith (fun g mu => mu * g.value x) m.inequality).sum +
        (c.inequalities.zipWith (fun g mu => mu * dot (g.gradient x) (y - x))
          m.inequality).sum ≤ 0 := by
    refine sum_zipWith_add_nonpos fun k hk mu hmu => ?_
    rw [← mul_add]
    have hbelow := (hinequalities k hk x y).trans (feasible.inequalities k hk)
    exact mul_nonpos_of_nonneg_of_nonpos (nonneg mu hmu) hbelow
  rw [lagrangian, dot_lagrangianGradient]
  linarith

/-- Where its gradient is small, the Lagrangian is hardly above the objective at feasible points. -/
theorem lagrangian_le {tolerance : ℝ}
    (nonneg : ∀ mu ∈ m.inequality, 0 ≤ mu) (hx : f.Evaluates { x, value := v, gradient := g })
    (small : norm (lagrangianGradient c m x g) ≤ tolerance) (hdomain : f.domain y = true)
    (hy : f.value y = .ok w) (feasible : c.Feasible y) :
    lagrangian c m x v ≤ w + tolerance * norm (y - x) := by
  have htangent := lagrangian_add_dot_le hf hequalities hinequalities nonneg hx hdomain hy feasible
  have hdot := Exact.neg_norm_mul_norm_le_dot (lagrangianGradient c m x g) (y - x)
  have hscaled := mul_le_mul_of_nonneg_right small (Exact.norm_nonneg (y - x))
  linarith

end WeakDuality

section Methods

variable {i : Nat} {s t : Reduction.State ℝ n} {inner : QuasiNewton.Solution ℝ n}

theorem Reduction.Advances.evaluates_objective {r : Reduction ℝ n ε}
    (advances : r.Advances f i s t inner)
    (hdomain : (r.surrogate s.parameter s.multipliers).domain t.last.x = true →
      f.domain t.last.x = true) (hg : f.gradient t.last.x = .ok g) :
    f.Evaluates { x := t.last.x, value := t.last.objective, gradient := g } :=
  ⟨advances.objective, hg, Bool.and_eq_true_iff.mpr
    ⟨hdomain (Bool.and_eq_true_iff.mp advances.evaluates.finite).1, rfl⟩⟩

namespace Barrier

variable {config : Config ℝ}

theorem lagrangian_multipliers {t : ℝ} (ht : 0 < t)
    (hinterior : ∀ k ∈ c.inequalities, k.value x < 0) (v : ℝ) :
    lagrangian c (multipliers c t x) x v = v - dualityGap c t := by
  have hnone : (multipliers c t x).equality = [] := rfl
  have hproducts : dualityGap c t = -(c.inequalities.zipWith (fun k mu => mu * k.value x)
      (multipliers c t x).inequality).sum := by
    rw [dualityGap_eq_sum ht hinterior, List.sum_neg, List.map_zipWith]
  rw [lagrangian, hproducts, hnone, List.zipWith_nil_right, List.sum_nil]
  ring

theorem le_of_advances (hf : f.AboveTangents)
    (hinequalities : ∀ k ∈ c.inequalities, k.AboveTangents)
    (equalities : c.equalities = []) (hpos : 0 < s.parameter)
    (advances : (reduction f c config).Advances f i s t inner)
    (converged : t.last.innerStatus = some .converged) (hdomain : f.domain y = true)
    (hy : f.value y = .ok w) (feasible : ∀ k ∈ c.inequalities, k.value y ≤ 0) :
    t.last.objective ≤ w + dualityGap c s.parameter +
      config.inner.gradientTol * max s.parameter 1 / s.parameter * norm (y - t.last.x) := by
  obtain ⟨g, hg, -⟩ := Except.bind_eq_ok_iff.mp advances.evaluates.gradient
  have hinterior : ∀ k ∈ c.inequalities, k.value t.last.x < 0 :=
    interior_of_finite advances.evaluates.finite
  have hx := advances.evaluates_objective (fun h => (Bool.and_eq_true_iff.mp h).2) hg
  have hnorm := advances.norm_lt (gradient_surrogate hpos.ne' hg) converged
  rw [Exact.norm_hmul hpos.le, gradientTol_innerConfig, ← lt_div_iff₀' hpos] at hnorm
  have nonneg : ∀ mu ∈ (multipliers c s.parameter t.last.x).inequality, 0 ≤ mu := by
    intro mu hmu
    obtain ⟨k, hk, rfl⟩ := List.mem_map.mp hmu
    exact (multiplier_pos hpos (hinterior k hk)).1.le
  have hbound := lagrangian_le hf (by simp [equalities]) hinequalities nonneg hx hnorm.le hdomain hy
    ⟨by simp [equalities], feasible⟩
  rw [lagrangian_multipliers hpos hinterior] at hbound
  linarith

end Barrier

namespace Penalty

theorem lagrangian_multipliers (weight : ℝ) (v : ℝ) :
    lagrangian c (multipliers c weight x) x v = v + 2 * weight *
      ((c.equalities.map fun k => k.value x ^ 2).sum +
        (c.inequalities.map fun k => max (k.value x) 0 ^ 2).sum) := by
  have hequality : ∀ k : Constraint ℝ n,
      2.0 * weight * k.value x * k.value x = 2 * weight * k.value x ^ 2 := by
    intro k
    rw [Exact.two_eq]
    ring
  have hinequality : ∀ k : Constraint ℝ n,
      2.0 * weight * excess k x * k.value x = 2 * weight * max (k.value x) 0 ^ 2 := by
    intro k
    rw [Exact.two_eq, excess_eq]
    rcases le_total (k.value x) 0 with hle | hle
    · rw [max_eq_right hle]
      ring
    · rw [max_eq_left hle]
      ring
  simp only [lagrangian, multipliers, List.zipWith_map_right, List.zipWith_self, hequality,
    hinequality, List.sum_map_mul_left]
  ring

theorem violations_nonneg (c : ConstraintSet ℝ n) (x : Vector ℝ n) {weight : ℝ}
    (hweight : 0 ≤ weight) :
    0 ≤ 2 * weight * ((c.equalities.map fun k => k.value x ^ 2).sum +
      (c.inequalities.map fun k => max (k.value x) 0 ^ 2).sum) := by
  have hsquares : ∀ (ks : List (Constraint ℝ n)) (u : Constraint ℝ n → ℝ),
      0 ≤ (ks.map fun k => u k ^ 2).sum := by
    intro ks u
    apply List.sum_nonneg
    intro a ha
    obtain ⟨k, -, rfl⟩ := List.mem_map.mp ha
    exact sq_nonneg (u k)
  exact mul_nonneg (by positivity) (add_nonneg (hsquares _ _) (hsquares _ _))

end Penalty

section Result

variable (hf : f.AboveTangents) (hequalities : ∀ k ∈ c.equalities, k.OnTangents)
  (hinequalities : ∀ k ∈ c.inequalities, k.AboveTangents)
  {o : Observer σ (Record ℝ n)} {z : σ} {sol : Solution ℝ n}
  (converged : sol.last.innerStatus = some .converged) (hdomain : f.domain y = true)
  (hy : f.value y = .ok w) (feasible : c.Feasible y)

include hf hequalities hinequalities converged hdomain hy feasible

theorem Reduction.LastIteration.lagrangian_le {r : Reduction ℝ n ε}
    (last : r.LastIteration f x s inner sol)
    (surrogateDomain : (r.surrogate s.parameter s.multipliers).domain = f.domain)
    (nonneg : ∀ mu ∈ sol.multipliers.inequality, 0 ≤ mu) (hg : f.gradient sol.last.x = .ok g)
    (hgradient : (r.surrogate s.parameter s.multipliers).gradient sol.last.x =
      .ok (lagrangianGradient c sol.multipliers sol.last.x g)) :
    lagrangian c sol.multipliers sol.last.x sol.last.objective ≤
      w + (r.innerConfig s.parameter).gradientTol * norm (y - sol.last.x) := by
  have hx := last.advances.evaluates_objective (fun h => surrogateDomain ▸ h) hg
  have hnorm := last.advances.norm_lt hgradient converged
  exact Constrained.lagrangian_le hf hequalities hinequalities nonneg hx hnorm.le hdomain hy
    feasible

theorem Penalty.lagrangian_le_of_minimize {config : Penalty.Config ℝ}
    (h : (Penalty.minimize f c x config o z).1 = .ok sol) :
    lagrangian c sol.multipliers sol.last.x sol.last.objective ≤
      w + config.inner.gradientTol * norm (y - sol.last.x) := by
  obtain ⟨s, inner, hpos, last⟩ := exists_lastIteration h
  obtain ⟨hmultipliers, g, hg, hgradient⟩ := multipliers_of_lastIteration last
  exact last.lagrangian_le hf hequalities hinequalities converged hdomain hy feasible rfl
    (hmultipliers ▸ multipliers_nonneg hpos.le) hg hgradient

theorem AugmentedLagrangian.lagrangian_le_of_minimize {config : AugmentedLagrangian.Config ℝ}
    (h : (AugmentedLagrangian.minimize f c x config o z).1 = .ok sol) :
    lagrangian c sol.multipliers sol.last.x sol.last.objective ≤
      w + config.inner.gradientTol * norm (y - sol.last.x) := by
  obtain ⟨s, inner, -, last⟩ := exists_lastIteration h
  obtain ⟨hmultipliers, g, hg, hgradient⟩ := multipliers_of_lastIteration last
  exact last.lagrangian_le hf hequalities hinequalities converged hdomain hy feasible rfl
    (hmultipliers ▸ updateMultipliers_nonneg) hg hgradient

end Result

end Methods

/-- Wherever the inner run has converged, the duality gap of a record says how far the objective may
be above its value at a feasible point, but for the gradient that the inner run has left. -/
theorem dualityGap_bounds_suboptimality (f : Objective ℝ n ε) (c : ConstraintSet ℝ n)
    (hf : f.AboveTangents) (hinequalities : ∀ k ∈ c.inequalities, k.AboveTangents) (x : Vector ℝ n)
    (config : Barrier.Config ℝ) (o : Observer σ (Record ℝ n)) (w : σ) :
    ReportsAll (fun _ => Barrier.minimize f c x config) (fun r =>
      r.innerStatus = some .converged →
        0 < r.parameter ∧ f.value r.x = .ok r.objective ∧
        r.measure = .dualityGap (c.inequalities.length / r.parameter) ∧
        ∀ y v, f.domain y = true → f.value y = .ok v → (∀ k ∈ c.inequalities, k.value y ≤ 0) →
          r.objective ≤ v + c.inequalities.length / r.parameter +
            config.inner.gradientTol * max r.parameter 1 / r.parameter * norm (y - r.x)) o w := by
  rw [← Barrier.procedure_run]
  refine Reduction.reports_of_invariant
    (I := fun s => config.Valid ∧ c.equalities = [] ∧ 0 < s.parameter) ?_ ?_ _ _ o w
  · intro hcheck s hs
    obtain ⟨valid, equalities, -⟩ := Barrier.check_eq_ok_iff.mp hcheck
    obtain ⟨-, objective, -, -, rfl⟩ := Reduction.start_eq_ok_iff.mp hs
    exact ⟨⟨valid, equalities, valid.initial_pos⟩, nofun⟩
  · rintro i s t inner ⟨valid, equalities, hpos⟩ advances
    refine ⟨⟨valid, equalities, ?_⟩, fun converged => ?_⟩
    · rw [advances.parameter]
      exact mul_pos hpos valid.growth_pos
    · rw [advances.usedParameter, advances.measure]
      refine ⟨hpos, advances.objective, rfl, fun y v hdomain hy feasible => ?_⟩
      exact Barrier.le_of_advances hf hinequalities equalities hpos advances converged hdomain hy
        feasible

section Example

theorem dot_difference (d : ℝ) (x y : Vector ℝ 1) :
    dot #v[d] (y - x) = d * (y.get (Fin.last 0) - x.get (Fin.last 0)) := by
  rw [Exact.dot_eq_sum, Fin.sum_univ_one, Vector.get_eq_getElem, Vector.get_eq_getElem,
    Vector.getElem_sub]
  rfl

theorem aboveTangents_line : line.AboveTangents := by
  rintro x y v w g - - ⟨⟩ ⟨⟩ ⟨⟩
  rw [dot_difference]
  linarith

theorem aboveTangents_belowOne : ∀ k ∈ belowOne.inequalities, k.AboveTangents := by
  intro k hk x y
  obtain rfl := List.mem_singleton.mp hk
  simp only [Constraint.univariate, dot_difference]
  linarith

theorem dualityGap_bounds_suboptimality_line : ∃ sol,
    (Barrier.minimize line belowOne #v[0] { tolerance := 2 } .silent ()).1 = .ok sol ∧
      sol.last.innerStatus = some .converged ∧
      sol.last.objective ≤ -1 + (1 : Nat) / sol.last.parameter +
        1e-8 * max sol.last.parameter 1 / sol.last.parameter * norm (#v[1] - sol.last.x) := by
  obtain ⟨sol, hsol, converged⟩ := exists_minimize_barrier
  have reports := dualityGap_bounds_suboptimality line belowOne aboveTangents_line
    aboveTangents_belowOne #v[0] { tolerance := 2 } .silent ()
  obtain ⟨-, -, -, hbound⟩ := (reports.returned sol hsol).1 converged
  refine ⟨sol, hsol, converged, hbound #v[1] (-1) rfl rfl fun k hk => ?_⟩
  obtain rfl := List.mem_singleton.mp hk
  exact (sub_self (1 : ℝ)).le

end Example

/-- Wherever the last inner run has converged, the Lagrangian with the multipliers of a result is no
higher than the objective at a feasible point, but for the gradient that is left. The terms of the
penalty are not negative, so that there the same holds of the objective itself. -/
theorem results_carry_dual_bounds (f : Objective ℝ n ε) (c : ConstraintSet ℝ n)
    (hf : f.AboveTangents) (hequalities : ∀ k ∈ c.equalities, k.OnTangents)
    (hinequalities : ∀ k ∈ c.inequalities, k.AboveTangents) (x : Vector ℝ n)
    (o : Observer σ (Record ℝ n)) (w : σ) (sol : Solution ℝ n) :
    (∀ config, (Penalty.minimize f c x config o w).1 = .ok sol →
      f.value sol.last.x = .ok sol.last.objective ∧ sol.multipliers.Fits c ∧
      lagrangian c sol.multipliers sol.last.x sol.last.objective =
        sol.last.objective + 2 * sol.last.parameter *
          ((c.equalities.map fun k => k.value sol.last.x ^ 2).sum +
            (c.inequalities.map fun k => max (k.value sol.last.x) 0 ^ 2).sum) ∧
      0 ≤ 2 * sol.last.parameter *
        ((c.equalities.map fun k => k.value sol.last.x ^ 2).sum +
          (c.inequalities.map fun k => max (k.value sol.last.x) 0 ^ 2).sum) ∧
      (sol.last.innerStatus = some .converged →
        ∀ y v, f.domain y = true → f.value y = .ok v → c.Feasible y →
          lagrangian c sol.multipliers sol.last.x sol.last.objective ≤
            v + config.inner.gradientTol * norm (y - sol.last.x) ∧
          sol.last.objective ≤ v + config.inner.gradientTol * norm (y - sol.last.x))) ∧
    ∀ config, (AugmentedLagrangian.minimize f c x config o w).1 = .ok sol →
      f.value sol.last.x = .ok sol.last.objective ∧ sol.multipliers.Fits c ∧
      (sol.last.innerStatus = some .converged →
        ∀ y v, f.domain y = true → f.value y = .ok v → c.Feasible y →
          lagrangian c sol.multipliers sol.last.x sol.last.objective ≤
            v + config.inner.gradientTol * norm (y - sol.last.x)) := by
  constructor
  · intro config h
    obtain ⟨s, inner, hpos, last⟩ := Penalty.exists_lastIteration h
    have hused : sol.last.parameter = s.parameter := last.advances.usedParameter
    have hmultipliers : sol.multipliers = Penalty.multipliers c sol.last.parameter sol.last.x :=
      hused ▸ last.advances.multipliers
    have hlagrangian := Penalty.lagrangian_multipliers (c := c) (x := sol.last.x)
      sol.last.parameter sol.last.objective
    rw [← hmultipliers] at hlagrangian
    have hnonneg := Penalty.violations_nonneg c sol.last.x (hused ▸ hpos.le)
    refine ⟨last.advances.objective, hmultipliers ▸ Penalty.fits_multipliers, hlagrangian, hnonneg,
      ?_⟩
    intro converged y v hdomain hy feasible
    have hbound := Penalty.lagrangian_le_of_minimize hf hequalities hinequalities converged hdomain
      hy feasible h
    exact ⟨hbound, by linarith⟩
  · intro config h
    obtain ⟨s, inner, fits, last⟩ := AugmentedLagrangian.exists_lastIteration h
    have hfits := AugmentedLagrangian.fits_of_advances fits last.advances
    refine ⟨last.advances.objective, hfits, fun converged y v hdomain hy feasible => ?_⟩
    exact AugmentedLagrangian.lagrangian_le_of_minimize hf hequalities hinequalities converged
      hdomain hy feasible h

section Example

theorem onTangents_atOrigin : ∀ k ∈ atOrigin.equalities, k.OnTangents := by
  intro k hk x y
  obtain rfl := List.mem_singleton.mp hk
  simp only [Constraint.univariate, dot_difference, id]
  ring

theorem feasible_atOrigin : atOrigin.Feasible #v[0] := by
  refine ⟨fun k hk => ?_, List.forall_mem_nil _⟩
  obtain rfl := List.mem_singleton.mp hk
  rfl

theorem results_carry_dual_bounds_line :
    (∃ sol, (Penalty.minimize line atOrigin #v[1 / 2] { tolerance := 2 } .silent ()).1 = .ok sol ∧
      sol.last.innerStatus = some .converged ∧
      sol.last.objective ≤ 0 + 1e-8 * norm (#v[0] - sol.last.x)) ∧
    ∃ sol, (AugmentedLagrangian.minimize line atOrigin #v[1] { tolerance := 2 } .silent
        ()).1 = .ok sol ∧ sol.last.innerStatus = some .converged ∧
      lagrangian atOrigin sol.multipliers sol.last.x sol.last.objective ≤
        0 + 1e-8 * norm (#v[0] - sol.last.x) := by
  have hy : line.value #v[0] = .ok 0 := congrArg Except.ok neg_zero
  constructor
  · obtain ⟨sol, hsol, converged⟩ := exists_minimize_penalty
    obtain ⟨-, -, -, -, hbound⟩ := (results_carry_dual_bounds line atOrigin aboveTangents_line
      onTangents_atOrigin (List.forall_mem_nil _) #v[1 / 2] .silent () sol).1 _ hsol
    exact ⟨sol, hsol, converged, (hbound converged #v[0] 0 rfl hy feasible_atOrigin).2⟩
  · obtain ⟨sol, hsol, converged⟩ := exists_minimize_augmentedLagrangian
    obtain ⟨-, -, hbound⟩ := (results_carry_dual_bounds line atOrigin aboveTangents_line
      onTangents_atOrigin (List.forall_mem_nil _) #v[1] .silent () sol).2 _ hsol
    exact ⟨sol, hsol, converged, hbound converged #v[0] 0 rfl hy feasible_atOrigin⟩

end Example

end Constrained

end LocalOptimization
