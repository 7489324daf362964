import LocalOptimization.Proofs.Broyden
import LocalOptimization.Proofs.Constrained.ProjectedGradient
import LocalOptimization.Proofs.Procedure.Methods
import LocalOptimization.Proofs.Procedure.Outcome
import LocalOptimization.Proofs.TrustRegion.Solver

/-!
# Reports are exact

Whatever a method reports on an iterate is what the objective, the constraints or the equations are
there: in the events, in the records of the history and in the result. The values are passed on from
the searches and kept across iterations; none of them is taken at another point.
-/

namespace LocalOptimization

variable {K : Type} [Scalar K] {n : Nat} {ε σ : Type}

/-- At `x` the objective has this value and this gradient with its norm. -/
structure Objective.Gives (f : Objective K n ε) (x : Vector K n) (value : K)
    (gradient : Vector K n) (gradientNorm : K) : Prop where
  gradientNorm : gradientNorm = norm gradient
  value : f.value x = .ok value
  gradient : f.gradient x = .ok gradient

namespace QuasiNewton

variable {f : Objective K n ε} {c : Config K} {x : Vector K n}

/-- What an event tells of the objective. -/
def Event.evaluation (e : Event K n) : Evaluation K n where
  x := e.record.x
  value := e.record.objective
  gradient := e.gradient

structure Event.Tells (f : Objective K n ε) (e : Event K n) : Prop where
  evaluates : f.Evaluates e.evaluation
  gradientNorm : e.record.gradientNorm = norm e.gradient

structure Solution.Tells (f : Objective K n ε) (sol : Solution K n) : Prop where
  final : f.Evaluates sol.final
  history : ∀ r ∈ sol.history.toList, ∃ e : Event K n, e.Tells f ∧ e.record = r

theorem reports (f : Objective K n ε) (x : Vector K n) (c : Config K)
    (o : Observer σ (Event K n)) (w : σ) :
    Solver.Reports (fun _ => minimize f x c) (Event.Tells f) (Solution.Tells f) o w := by
  rw [← procedure_run]
  refine ((procedure f x c).reports (I := fun s => f.Evaluates s.current) (P := Event.Tells f)
    ?_ ?_ o w).imp (fun _ => id) ?_
  · intro s hs
    have hcurrent := evaluates_of_start hs
    refine ⟨hcurrent, ?_⟩
    intro event hevent
    cases List.mem_singleton.mp hevent
    exact ⟨hcurrent, rfl⟩
  · intro i s t event _ hadvance
    rw [procedure, iteration, Except.mapError_eq_ok_iff] at hadvance
    have hcurrent := State.evaluates_of_advance hadvance
    obtain ⟨alpha, stale, rfl⟩ := State.exists_event_of_advance hadvance
    exact ⟨hcurrent, hcurrent, rfl⟩
  · rintro sol ⟨e, rfl, hcurrent, hhistory⟩
    exact ⟨hcurrent, hhistory⟩

theorem Event.Tells.gives {e : Event K n} (tells : e.Tells f) :
    f.Gives e.record.x e.record.objective e.gradient e.record.gradientNorm :=
  ⟨tells.gradientNorm, tells.evaluates.value, tells.evaluates.gradient⟩

theorem reports_gives (f : Objective K n ε) (x : Vector K n) (c : Config K)
    (o : Observer σ (Event K n)) (w : σ) :
    Solver.Reports (fun _ => minimize f x c)
      (fun e => f.Gives e.record.x e.record.objective e.gradient e.record.gradientNorm)
      (fun sol =>
        f.Gives sol.final.x sol.final.value sol.final.gradient sol.final.gradientNorm ∧
        ∀ r ∈ sol.history.toList, ∃ g, f.Gives r.x r.objective g r.gradientNorm) o w := by
  refine (reports f x c o w).imp (fun e tells => tells.gives) ?_
  intro sol tells
  refine ⟨⟨rfl, tells.final.value, tells.final.gradient⟩, ?_⟩
  intro r hr
  obtain ⟨e, htells, rfl⟩ := tells.history r hr
  exact ⟨e.gradient, htells.gives⟩

end QuasiNewton

namespace TrustRegion

variable {f : Objective K n ε} {c : Config K} {x : Vector K n}

def Event.evaluation (e : Event K n) : Evaluation K n where
  x := e.record.x
  value := e.record.objective
  gradient := e.gradient

structure Event.Tells (I : Evaluation K n → Prop) (e : Event K n) : Prop where
  evaluation : I e.evaluation
  gradientNorm : e.record.gradientNorm = norm e.gradient

structure Solution.Tells (I : Evaluation K n → Prop) (sol : Solution K n) : Prop where
  final : I sol.final
  history : ∀ r ∈ sol.history.toList, ∃ e : Event K n, e.Tells I ∧ e.record = r

theorem reports {I : Evaluation K n → Prop} (hstart : ∀ s, start f c x = .ok s → I s.current)
    (hstep : ∀ (s t : State K n) (o : Outcome K n), I s.current → s.Advances f c t o →
      c.eta < o.ratio → I t.current)
    (o : Observer σ (Event K n)) (w : σ) :
    Solver.Reports (fun _ => minimize f x c) (Event.Tells I) (Solution.Tells I) o w := by
  rw [← procedure_run]
  refine ((procedure f x c).reports (I := fun s => I s.current) ?_ ?_ o w).imp (fun _ => id) ?_
  · intro s hs
    have hcurrent := hstart s hs
    refine ⟨hcurrent, ?_⟩
    intro event hevent
    cases List.mem_singleton.mp hevent
    exact ⟨hcurrent, rfl⟩
  · intro i s t event hs hadvance
    rw [procedure, iteration, Except.mapError_eq_ok_iff] at hadvance
    obtain ⟨outcome, stale, advances, rfl, -⟩ := State.advances_of_advance hadvance
    have hcurrent : I t.current := by
      by_cases haccepted : c.eta < outcome.ratio
      · exact hstep s t outcome hs advances haccepted
      · rw [(advances.kept haccepted).1]
        exact hs
    exact ⟨hcurrent, hcurrent, rfl⟩
  · rintro sol ⟨e, rfl, hcurrent, hhistory⟩
    exact ⟨hcurrent, hhistory⟩

theorem evaluate_of_start {s : State K n} (h : start f c x = .ok s) :
    f.evaluate s.current.x = .ok s.current := by
  obtain ⟨-, -, e, hessian, he, -, -, rfl⟩ := start_eq_ok_iff.mp h
  rwa [(Objective.evaluate_eq_ok_iff.mp he).1]

theorem State.Advances.evaluate {s t : State K n} {o : Outcome K n}
    (advances : s.Advances f c t o) (accepted : c.eta < o.ratio) :
    f.evaluate t.current.x = .ok t.current := by
  obtain ⟨-, hvalue, -⟩ := State.tryStep_eq_ok_iff.mp advances.tried
  obtain ⟨hx, hmoved⟩ := advances.moved accepted
  refine Objective.evaluate_eq_ok_iff.mpr ⟨rfl, ?_, advances.gradient accepted⟩
  rw [hx, hmoved, hvalue]

theorem Event.Tells.gives {e : Event K n}
    (tells : e.Tells fun e => f.evaluate e.x = .ok e) :
    f.Gives e.record.x e.record.objective e.gradient e.record.gradientNorm := by
  obtain ⟨-, hvalue, hgradient⟩ := Objective.evaluate_eq_ok_iff.mp tells.evaluation
  exact ⟨tells.gradientNorm, hvalue, hgradient⟩

theorem reports_gives (f : Objective K n ε) (x : Vector K n) (c : Config K)
    (o : Observer σ (Event K n)) (w : σ) :
    Solver.Reports (fun _ => minimize f x c)
      (fun e => f.Gives e.record.x e.record.objective e.gradient e.record.gradientNorm)
      (fun sol =>
        f.Gives sol.final.x sol.final.value sol.final.gradient sol.final.gradientNorm ∧
        ∀ r ∈ sol.history.toList, ∃ g, f.Gives r.x r.objective g r.gradientNorm) o w := by
  refine (reports (I := fun e => f.evaluate e.x = .ok e) (fun s => evaluate_of_start)
    (fun s t o _ => State.Advances.evaluate) o w).imp (fun e tells => tells.gives) ?_
  intro sol tells
  obtain ⟨-, hvalue, hgradient⟩ := Objective.evaluate_eq_ok_iff.mp tells.final
  refine ⟨⟨rfl, hvalue, hgradient⟩, ?_⟩
  intro r hr
  obtain ⟨e, htells, rfl⟩ := tells.history r hr
  exact ⟨e.gradient, htells.gives⟩

end TrustRegion

namespace Broyden

variable {f : System K n ε} {c : Config K} {x : Vector K n}

/-- The residuals are those of the system, and their norm is finite. -/
structure Gives (f : System K n ε) (x residuals : Vector K n) (residualNorm : K) : Prop where
  finite : Scalar.isFinite residualNorm = true
  residualNorm : residualNorm = norm residuals
  residuals : f x = .ok residuals

def Event.TrueTo (f : System K n ε) (e : Event K n) : Prop :=
  Gives f e.record.x e.residuals e.record.residualNorm

structure Solution.TrueTo (f : System K n ε) (sol : Solution K n) : Prop where
  final : Gives f sol.final.x sol.final.residuals sol.final.residualNorm
  history : ∀ r ∈ sol.history.toList, ∃ residuals, Gives f r.x residuals r.residualNorm

theorem reports (f : System K n ε) (x : Vector K n) (c : Config K) (o : Observer σ (Event K n))
    (w : σ) : Solver.Reports (fun _ => solve f x c) (Event.TrueTo f) (Solution.TrueTo f) o w := by
  rw [← procedure_run]
  refine ((procedure f x c).reports
    (I := fun s => Gives f s.current.x s.current.residuals s.current.residualNorm) ?_ ?_ o w).imp
    (fun _ => id) ?_
  · intro s hs
    obtain ⟨-, -, hresiduals, hfinite, -, rfl, -⟩ := start_eq_ok_iff.mp hs
    have hcurrent : Gives f s.current.x s.current.residuals s.current.residualNorm :=
      ⟨hfinite, rfl, hresiduals⟩
    refine ⟨hcurrent, ?_⟩
    intro event hevent
    cases List.mem_singleton.mp hevent
    exact hcurrent
  · intro i s t event _ hadvance
    rw [procedure, iteration, Except.mapError_eq_ok_iff] at hadvance
    obtain ⟨a, hfound, rfl, rfl⟩ := State.exists_accepted_of_advance hadvance
    obtain ⟨hresiduals, hdecreases⟩ := State.of_findStep hfound
    have hnext : Gives f a.next.x a.next.residuals a.next.residualNorm :=
      ⟨(Bool.and_eq_true_iff.mp hdecreases).1, rfl, hresiduals⟩
    exact ⟨hnext, hnext⟩
  · rintro sol ⟨e, rfl, hcurrent, hhistory⟩
    refine ⟨hcurrent, ?_⟩
    intro r hr
    obtain ⟨event, hevent, rfl⟩ := hhistory r hr
    exact ⟨event.residuals, hevent⟩

end Broyden

namespace Constrained

/-- All records have the property: those that an observer is told, that of the last iteration and
those in the history. -/
def ReportsAll (solve : Solver (Record K n) (Error K ε) (Solution K n)) (P : Record K n → Prop)
    (o : Observer σ (Record K n)) (w : σ) : Prop :=
  solve.Reports P (fun sol => P sol.last ∧ ∀ r ∈ sol.history.toList, P r) o w

omit [Scalar K] in
theorem ReportsAll.imp {solve : Solver (Record K n) (Error K ε) (Solution K n)}
    {P Q : Record K n → Prop} {o : Observer σ (Record K n)} {w : σ}
    (reports : ReportsAll solve P o w) (h : ∀ r, P r → Q r) : ReportsAll solve Q o w :=
  Solver.Reports.imp reports h fun _ hsol => ⟨h _ hsol.1, fun r hr => h r (hsol.2 r hr)⟩

/-- The record has the objective itself and this measure. -/
structure Record.Gives (f : Objective K n ε) (measure : Measure K) (r : Record K n) : Prop where
  objective : f.value r.x = .ok r.objective
  measure : r.measure = measure

theorem Reduction.reports_of_invariant {r : Reduction K n ε} {f : Objective K n ε} {x : Vector K n}
    {check : Except (Error K ε) Unit} {I : State K n → Prop} {P : Record K n → Prop}
    (hstart : check = .ok () → ∀ s, r.start f x = .ok s → I s ∧ P s.last)
    (hstep : ∀ i s t inner, I s → r.Advances f i s t inner → I t ∧ P t.last)
    (maxOuterIters : Nat) (historyLimit : Option Nat) (o : Observer σ (Record K n)) (w : σ) :
    ReportsAll (r.procedure f x check maxOuterIters historyLimit).run P o w := by
  refine ((r.procedure f x check maxOuterIters historyLimit).reports
    (I := fun s => I s ∧ P s.last) (P := P) ?_ ?_ o w).imp (fun _ => id) ?_
  · intro s hs
    obtain ⟨⟨⟩, hcheck, hs⟩ := Except.bind_eq_ok_iff.mp hs
    exact ⟨hstart hcheck s hs, List.forall_mem_nil P⟩
  · rintro i s t event ⟨hI, -⟩ hadvance
    obtain ⟨rfl, inner, advances⟩ := advance_eq_some_iff.mp hadvance
    have hnext := hstep i s t inner hI advances
    exact ⟨hnext, hnext.2⟩
  · rintro sol ⟨e, rfl, ⟨-, hlast⟩, hhistory⟩
    refine ⟨hlast, ?_⟩
    intro record hrecord
    obtain ⟨event, hevent, rfl⟩ := hhistory record hrecord
    exact hevent

theorem Reduction.reports {r : Reduction K n ε} {f : Objective K n ε} {x : Vector K n}
    {P : Record K n → Prop} (hstart : ∀ s, r.start f x = .ok s → P s.last)
    (hstep : ∀ i s t inner, r.Advances f i s t inner → P t.last)
    (check : Except (Error K ε) Unit) (maxOuterIters : Nat) (historyLimit : Option Nat)
    (o : Observer σ (Record K n)) (w : σ) :
    ReportsAll (r.procedure f x check maxOuterIters historyLimit).run P o w :=
  Reduction.reports_of_invariant (I := fun _ => True) (fun _ s hs => ⟨trivial, hstart s hs⟩)
    (fun i s t inner _ advances => ⟨trivial, hstep i s t inner advances⟩) maxOuterIters historyLimit
    o w

theorem Reduction.reports_gives (r : Reduction K n ε) (f : Objective K n ε) (x : Vector K n)
    (check : Except (Error K ε) Unit) (maxOuterIters : Nat) (historyLimit : Option Nat)
    (o : Observer σ (Record K n)) (w : σ) :
    ReportsAll (r.procedure f x check maxOuterIters historyLimit).run
      (fun record => record.Gives f (r.measure record.parameter record.x)) o w := by
  refine Reduction.reports ?_ ?_ check maxOuterIters historyLimit o w
  · intro s hs
    obtain ⟨-, objective, hobjective, -, rfl⟩ := start_eq_ok_iff.mp hs
    exact ⟨hobjective, rfl⟩
  · intro i s t inner advances
    refine ⟨advances.objective, ?_⟩
    rw [advances.measure, advances.usedParameter]

namespace ProjectedGradient

/-- The record is that of an iterate where the objective is finite. -/
def Tells (f : Objective K n ε) (b : Box K n) (record : Record K n) : Prop :=
  ∃ i alpha e, f.Evaluates e ∧ record = (State.reached b i alpha e).last

theorem reports (f : Objective K n ε) (b : Box K n) (x : Vector K n) (c : Config K)
    (o : Observer σ (Record K n)) (w : σ) :
    ReportsAll (fun _ => minimize f b x c) (Tells f b) o w := by
  rw [← procedure_run]
  refine ((procedure f b x c).reports (I := fun s => Tells f b s.last) (P := Tells f b)
    ?_ ?_ o w).imp (fun _ => id) ?_
  · intro s hs
    obtain ⟨-, -, e, he, hfinite, rfl⟩ := start_eq_ok_iff.mp hs
    obtain ⟨hx, hvalue, hgradient⟩ := Objective.evaluate_eq_ok_iff.mp he
    rw [← hx] at hvalue hgradient
    simp only [Evaluation.isFinite, Bool.and_eq_true] at hfinite
    have hevaluates : f.Evaluates e :=
      ⟨hvalue, hgradient, Bool.and_eq_true_iff.mpr ⟨hfinite.1, hfinite.2.1⟩⟩
    exact ⟨⟨0, 0.0, e, hevaluates, rfl⟩, List.forall_mem_nil _⟩
  · intro i s t event _ hadvance
    obtain ⟨alpha, next, found, rfl, rfl⟩ := exists_found_of_advance hadvance
    have haccepted := found.accepted
    simp only [accepts, Bool.and_eq_true] at haccepted
    have hevaluates : f.Evaluates next := ⟨found.value, found.gradient, haccepted.1.1⟩
    exact ⟨⟨i, alpha, next, hevaluates, rfl⟩, ⟨i, alpha, next, hevaluates, rfl⟩⟩
  · rintro sol ⟨e, rfl, hlast, hhistory⟩
    refine ⟨hlast, ?_⟩
    intro record hrecord
    obtain ⟨event, hevent, rfl⟩ := hhistory record hrecord
    exact hevent

theorem Tells.gives {f : Objective K n ε} {b : Box K n} {record : Record K n}
    (tells : Tells f b record) : ∃ g, f.gradient record.x = .ok g ∧
      record.Gives f (.projectedGradient (norm (record.x - b.project (record.x - g)))) := by
  obtain ⟨i, alpha, e, hevaluates, rfl⟩ := tells
  exact ⟨e.gradient, hevaluates.gradient, hevaluates.value, rfl⟩

end ProjectedGradient

section Reductions

variable (f : Objective K n ε) (c : ConstraintSet K n) (x : Vector K n)
  (o : Observer σ (Record K n)) (w : σ)

theorem Penalty.reports_gives (config : Config K) :
    ReportsAll (fun _ => minimize f c x config)
      (fun r => r.Gives f (.violation (c.maxViolation r.x))) o w := by
  rw [← procedure_run]
  exact (reduction f c config).reports_gives f x _ _ _ o w

theorem AugmentedLagrangian.reports_gives (config : Config K) :
    ReportsAll (fun _ => minimize f c x config)
      (fun r => r.Gives f (.violation (c.maxViolation r.x))) o w := by
  rw [← procedure_run]
  exact (reduction f c config).reports_gives f x _ _ _ o w

theorem Barrier.reports_gives (config : Config K) :
    ReportsAll (fun _ => minimize f c x config) (fun r =>
      r.Gives f (.dualityGap (Scalar.ofNat c.inequalities.length / r.parameter))) o w := by
  rw [← procedure_run]
  exact (reduction f c config).reports_gives f x _ _ _ o w

end Reductions

end Constrained

/-- Everything that any of the methods reports is exact. The records of a descent method do not have
the gradient, and those of the solver of equations do not have the residuals, but their norms are
those of the gradient and the residuals at the point of the record. -/
theorem reports_are_exact (f : Objective K n ε) (c : ConstraintSet K n) (b : Box K n)
    (system : Broyden.System K n ε) (x : Vector K n) (σ : Type) :
    (∀ config (o : Observer σ (QuasiNewton.Event K n)) w,
      Solver.Reports (fun _ => QuasiNewton.minimize f x config)
        (fun e => f.Gives e.record.x e.record.objective e.gradient e.record.gradientNorm)
        (fun sol =>
          f.Gives sol.final.x sol.final.value sol.final.gradient sol.final.gradientNorm ∧
          ∀ r ∈ sol.history.toList, ∃ g, f.Gives r.x r.objective g r.gradientNorm) o w) ∧
    (∀ config (o : Observer σ (TrustRegion.Event K n)) w,
      Solver.Reports (fun _ => TrustRegion.minimize f x config)
        (fun e => f.Gives e.record.x e.record.objective e.gradient e.record.gradientNorm)
        (fun sol =>
          f.Gives sol.final.x sol.final.value sol.final.gradient sol.final.gradientNorm ∧
          ∀ r ∈ sol.history.toList, ∃ g, f.Gives r.x r.objective g r.gradientNorm) o w) ∧
    (∀ config (o : Observer σ (Constrained.Record K n)) w,
      Constrained.ReportsAll (fun _ => Constrained.Penalty.minimize f c x config)
        (fun r => r.Gives f (.violation (c.maxViolation r.x))) o w) ∧
    (∀ config (o : Observer σ (Constrained.Record K n)) w,
      Constrained.ReportsAll (fun _ => Constrained.Barrier.minimize f c x config) (fun r =>
        r.Gives f (.dualityGap (Scalar.ofNat c.inequalities.length / r.parameter))) o w) ∧
    (∀ config (o : Observer σ (Constrained.Record K n)) w,
      Constrained.ReportsAll (fun _ => Constrained.AugmentedLagrangian.minimize f c x config)
        (fun r => r.Gives f (.violation (c.maxViolation r.x))) o w) ∧
    (∀ config (o : Observer σ (Constrained.Record K n)) w,
      Constrained.ReportsAll (fun _ => Constrained.ProjectedGradient.minimize f b x config)
        (fun r => ∃ g, f.gradient r.x = .ok g ∧
          r.Gives f (.projectedGradient (norm (r.x - b.project (r.x - g))))) o w) ∧
    ∀ config (o : Observer σ (Broyden.Event K n)) w,
      Solver.Reports (fun _ => Broyden.solve system x config)
        (fun e => system e.record.x = .ok e.residuals ∧ e.record.residualNorm = norm e.residuals)
        (fun sol => system sol.final.x = .ok sol.final.residuals ∧
          sol.final.residualNorm = norm sol.final.residuals ∧
          ∀ r ∈ sol.history.toList, ∃ residuals, system r.x = .ok residuals ∧
            r.residualNorm = norm residuals) o w := by
  refine ⟨?_, ?_, ?_, ?_, ?_, ?_, ?_⟩ <;> intro config o w
  · exact QuasiNewton.reports_gives f x config o w
  · exact TrustRegion.reports_gives f x config o w
  · exact Constrained.Penalty.reports_gives f c x o w config
  · exact Constrained.Barrier.reports_gives f c x o w config
  · exact Constrained.AugmentedLagrangian.reports_gives f c x o w config
  · exact (Constrained.ProjectedGradient.reports f b x config o w).imp
      fun r => Constrained.ProjectedGradient.Tells.gives
  · refine (Broyden.reports system x config o w).imp ?_ ?_
    · exact fun e gives => ⟨gives.residuals, gives.residualNorm⟩
    · rintro sol ⟨final, history⟩
      refine ⟨final.residuals, final.residualNorm, ?_⟩
      intro r hr
      obtain ⟨residuals, gives⟩ := history r hr
      exact ⟨residuals, gives.residuals, gives.residualNorm⟩

end LocalOptimization
