import LocalOptimization.Proofs.Double
import LocalOptimization.Proofs.OrderedScalar
import LocalOptimization.Proofs.Procedure.Reports
import LocalOptimization.Proofs.TrustRegion.Transition

/-!
# Reported objectives are finite

On doubles no method reports an objective that is infinite or NaN, whatever it meets on its way. A
line search and a search along the arc ask that the trial they accept is finite, a trust region
that its ratio exceeds a threshold, and the solver of equations that the residual norm is finite. A
reduction only has that its surrogate is finite where the inner run ends; but a finite sum,
difference or product has finite operands.
-/

namespace LocalOptimization

variable {n : Nat} {ε σ : Type}

theorem TrustRegion.State.Advances.isFiniteAt {K : Type} [Scalar K] [OrderedScalar K]
    {f : Objective K n ε} {c : Config K} {s t : State K n} {o : Outcome K n} (valid : c.Valid)
    (advances : s.Advances f c t o) (accepted : c.eta < o.ratio) :
    f.isFiniteAt t.current.x t.current.value = true := by
  obtain ⟨-, -, -, -, hratio⟩ := tryStep_eq_ok_iff.mp advances.tried
  obtain ⟨hx, hvalue⟩ := advances.moved accepted
  rw [hx, hvalue]
  exact (of_lt_reductionRatio valid.eta_nonneg (hratio ▸ accepted)).1

theorem TrustRegion.reports_finite {K : Type} [Scalar K] [OrderedScalar K] (f : Objective K n ε)
    (x : Vector K n) (c : Config K) (o : Observer σ (Event K n)) (w : σ) :
    Solver.Reports (fun _ => minimize f x c)
      (fun e => Scalar.isFinite e.record.objective = true)
      (fun sol => Scalar.isFinite sol.final.value = true ∧
        ∀ r ∈ sol.history.toList, Scalar.isFinite r.objective = true) o w := by
  refine (reports (I := fun e => c.Valid ∧ f.isFiniteAt e.x e.value = true) ?_ ?_ o w).imp ?_ ?_
  · intro s hs
    obtain ⟨valid, -, e, hessian, he, -, hfinite, rfl⟩ := start_eq_ok_iff.mp hs
    simp only [Evaluation.isFinite, Bool.and_eq_true] at hfinite
    rw [← (Objective.evaluate_eq_ok_iff.mp he).1] at hfinite
    exact ⟨valid, Bool.and_eq_true_iff.mpr ⟨hfinite.1.1, hfinite.1.2.1⟩⟩
  · rintro s t outcome ⟨valid, -⟩ advances accepted
    exact ⟨valid, advances.isFiniteAt valid accepted⟩
  · intro e tells
    exact (Bool.and_eq_true_iff.mp tells.evaluation.2).2
  · intro sol tells
    refine ⟨(Bool.and_eq_true_iff.mp tells.final.2).2, ?_⟩
    intro r hr
    obtain ⟨e, htells, rfl⟩ := tells.history r hr
    exact (Bool.and_eq_true_iff.mp htells.evaluation.2).2

theorem QuasiNewton.reports_finite {K : Type} [Scalar K] (f : Objective K n ε) (x : Vector K n)
    (c : Config K) (o : Observer σ (Event K n)) (w : σ) :
    Solver.Reports (fun _ => minimize f x c)
      (fun e => Scalar.isFinite e.record.objective = true)
      (fun sol => Scalar.isFinite sol.final.value = true ∧
        ∀ r ∈ sol.history.toList, Scalar.isFinite r.objective = true) o w := by
  refine (reports f x c o w).imp ?_ ?_
  · intro e tells
    exact (Bool.and_eq_true_iff.mp tells.evaluates.finite).2
  · intro sol tells
    refine ⟨(Bool.and_eq_true_iff.mp tells.final.finite).2, ?_⟩
    intro r hr
    obtain ⟨e, htells, rfl⟩ := tells.history r hr
    exact (Bool.and_eq_true_iff.mp htells.evaluates.finite).2

namespace Constrained

theorem ProjectedGradient.reports_finite {K : Type} [Scalar K] (f : Objective K n ε) (b : Box K n)
    (x : Vector K n) (c : Config K) (o : Observer σ (Record K n)) (w : σ) :
    ReportsAll (fun _ => minimize f b x c) (fun r => Scalar.isFinite r.objective = true) o w := by
  refine (reports f b x c o w).imp ?_
  rintro r ⟨i, alpha, e, hevaluates, rfl⟩
  exact (Bool.and_eq_true_iff.mp hevaluates.finite).2

/-- Where a surrogate is finite, the objective is. -/
def Reduction.FiniteOn (r : Reduction Float n ε) (f : Objective Float n ε) : Prop :=
  ∀ parameter multipliers x value objective,
    (r.surrogate parameter multipliers).value x = .ok value → f.value x = .ok objective →
      value.isFinite = true → objective.isFinite = true

theorem Reduction.FiniteOn.reports {r : Reduction Float n ε} {f : Objective Float n ε}
    (finiteOn : r.FiniteOn f) (x : Vector Float n) (check : Except (Error Float ε) Unit)
    (maxOuterIters : Nat) (historyLimit : Option Nat) (o : Observer σ (Record Float n)) (w : σ) :
    ReportsAll (r.procedure f x check maxOuterIters historyLimit).run
      (fun record => record.objective.isFinite = true) o w := by
  refine Reduction.reports ?_ ?_ check maxOuterIters historyLimit o w
  · intro s hs
    obtain ⟨-, objective, -, hfinite, rfl⟩ := start_eq_ok_iff.mp hs
    exact (Bool.and_eq_true_iff.mp hfinite).2
  · intro i s t inner advances
    have hevaluates := advances.evaluates
    exact finiteOn s.parameter s.multipliers t.last.x inner.final.value t.last.objective
      hevaluates.value advances.objective (Bool.and_eq_true_iff.mp hevaluates.finite).2

section Reductions

variable (f : Objective Float n ε) (c : ConstraintSet Float n) (x : Vector Float n)
  (o : Observer σ (Record Float n)) (w : σ)

theorem Penalty.finiteOn (config : Config Float) : (reduction f c config).FiniteOn f := by
  intro weight _ x value objective hvalue hobjective hfinite
  obtain ⟨objective', hobjective', hsum⟩ := Except.bind_eq_ok_iff.mp hvalue
  cases hobjective.symm.trans hobjective'
  rw [← Except.ok.inj hsum] at hfinite
  exact (Double.isFinite_of_isFinite_add hfinite).1

theorem AugmentedLagrangian.finiteOn (config : Config Float) :
    (reduction f c config).FiniteOn f := by
  intro rho m x value objective hvalue hobjective hfinite
  obtain ⟨objective', hobjective', hsum⟩ := Except.bind_eq_ok_iff.mp hvalue
  cases hobjective.symm.trans hobjective'
  rw [← Except.ok.inj hsum] at hfinite
  exact (Double.isFinite_of_isFinite_add (Double.isFinite_of_isFinite_add hfinite).1).1

theorem Barrier.finiteOn (config : Config Float) : (reduction f c config).FiniteOn f := by
  intro t _ x value objective hvalue hobjective hfinite
  dsimp only [reduction, surrogate] at hvalue
  split at hvalue
  next interior =>
    obtain ⟨objective', hobjective', hdifference⟩ := Except.bind_eq_ok_iff.mp hvalue
    cases hobjective.symm.trans hobjective'
    rw [← Except.ok.inj hdifference] at hfinite
    have hweighted := (Double.isFinite_of_isFinite_sub hfinite).1
    exact (Double.isFinite_of_isFinite_mul hweighted).2
  next outside =>
    rw [← Except.ok.inj hvalue] at hfinite
    exact absurd (Double.isFinite_infinity.symm.trans hfinite) Bool.false_ne_true

theorem Penalty.reports_finite (config : Config Float) :
    ReportsAll (fun _ => minimize f c x config) (fun r => r.objective.isFinite = true) o w := by
  rw [← procedure_run]
  exact (finiteOn f c config).reports x _ _ _ o w

theorem AugmentedLagrangian.reports_finite (config : Config Float) :
    ReportsAll (fun _ => minimize f c x config) (fun r => r.objective.isFinite = true) o w := by
  rw [← procedure_run]
  exact (finiteOn f c config).reports x _ _ _ o w

theorem Barrier.reports_finite (config : Config Float) :
    ReportsAll (fun _ => minimize f c x config) (fun r => r.objective.isFinite = true) o w := by
  rw [← procedure_run]
  exact (finiteOn f c config).reports x _ _ _ o w

end Reductions

end Constrained

/-- Whatever doubles the functions of a problem return, no method reports an objective that is not
finite, and the solver of equations no such residual norm. -/
theorem reported_objectives_are_finite (f : Objective Float n ε) (c : ConstraintSet Float n)
    (b : Box Float n) (system : Broyden.System Float n ε) (x : Vector Float n) (σ : Type) :
    (∀ config (o : Observer σ (QuasiNewton.Event Float n)) w,
      Solver.Reports (fun _ => QuasiNewton.minimize f x config)
        (fun e => e.record.objective.isFinite = true)
        (fun sol => sol.final.value.isFinite = true ∧
          ∀ r ∈ sol.history.toList, r.objective.isFinite = true) o w) ∧
    (∀ config (o : Observer σ (TrustRegion.Event Float n)) w,
      Solver.Reports (fun _ => TrustRegion.minimize f x config)
        (fun e => e.record.objective.isFinite = true)
        (fun sol => sol.final.value.isFinite = true ∧
          ∀ r ∈ sol.history.toList, r.objective.isFinite = true) o w) ∧
    (∀ config (o : Observer σ (Constrained.Record Float n)) w,
      Constrained.ReportsAll (fun _ => Constrained.Penalty.minimize f c x config)
        (fun r => r.objective.isFinite = true) o w) ∧
    (∀ config (o : Observer σ (Constrained.Record Float n)) w,
      Constrained.ReportsAll (fun _ => Constrained.Barrier.minimize f c x config)
        (fun r => r.objective.isFinite = true) o w) ∧
    (∀ config (o : Observer σ (Constrained.Record Float n)) w,
      Constrained.ReportsAll (fun _ => Constrained.AugmentedLagrangian.minimize f c x config)
        (fun r => r.objective.isFinite = true) o w) ∧
    (∀ config (o : Observer σ (Constrained.Record Float n)) w,
      Constrained.ReportsAll (fun _ => Constrained.ProjectedGradient.minimize f b x config)
        (fun r => r.objective.isFinite = true) o w) ∧
    ∀ config (o : Observer σ (Broyden.Event Float n)) w,
      Solver.Reports (fun _ => Broyden.solve system x config)
        (fun e => e.record.residualNorm.isFinite = true)
        (fun sol => sol.final.residualNorm.isFinite = true ∧
          ∀ r ∈ sol.history.toList, r.residualNorm.isFinite = true) o w := by
  refine ⟨?_, ?_, ?_, ?_, ?_, ?_, ?_⟩ <;> intro config o w
  · exact QuasiNewton.reports_finite f x config o w
  · exact TrustRegion.reports_finite f x config o w
  · exact Constrained.Penalty.reports_finite f c x o w config
  · exact Constrained.Barrier.reports_finite f c x o w config
  · exact Constrained.AugmentedLagrangian.reports_finite f c x o w config
  · exact Constrained.ProjectedGradient.reports_finite f b x config o w
  · refine (Broyden.reports system x config o w).imp (fun e gives => gives.finite) ?_
    rintro sol ⟨final, history⟩
    refine ⟨final.finite, ?_⟩
    intro r hr
    obtain ⟨residuals, gives⟩ := history r hr
    exact gives.finite

end LocalOptimization
