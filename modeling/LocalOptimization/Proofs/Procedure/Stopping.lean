import LocalOptimization.Proofs.Broyden
import LocalOptimization.Proofs.Constrained.ProjectedGradient
import LocalOptimization.Proofs.Constrained.Reduction
import LocalOptimization.Proofs.Procedure.Methods
import LocalOptimization.Proofs.TrustRegion.Transition

/-!
# Stopped runs

A run that its observer stops has shown the first events of the run that nobody stops, and its
result is that of the last of them. Only the constrained methods count a stop at an iterate that
meets the tolerance as convergence.
-/

namespace LocalOptimization

variable {K : Type} [Scalar K] {n : Nat} {ε σ : Type}

theorem Procedure.toList_history_endingAt {S E R A : Type} {p : Procedure S E R ε A}
    (unlimited : p.limit = none) (events : List E) (i : Nat) (s : S) :
    (p.endingAt events i s).history.toList = events.map p.iteration.record := by
  have hempty : (History.empty p.limit : History R).limit = none := unlimited
  exact History.toList_foldl_push_of_limit_eq_none (events.map p.iteration.record) hempty

namespace QuasiNewton

structure Event.ReportsOn (e : Event K n) (i : Nat) (s : State K n) : Prop where
  iteration : e.record.iteration = i
  x : e.record.x = s.current.x
  objective : e.record.objective = s.current.value
  gradient : e.gradient = s.current.gradient

/-- The result is that of the last of these events, at which the run was stopped. -/
structure EndsAt (c : Config K) (before : List (Event K n)) (event : Event K n)
    (sol : Solution K n) : Prop where
  status : sol.status = .stopped
  x : sol.final.x = event.record.x
  objective : sol.final.value = event.record.objective
  gradient : sol.final.gradient = event.gradient
  iterations : sol.iterations = event.record.iteration
  history : c.historyLimit = none → sol.history.toList = (before ++ [event]).map Event.record

theorem reportsOn_of_advance {f : Objective K n ε} {c : Config K} {i : Nat} {s t : State K n}
    {event : Event K n} (h : s.advance f c i = .ok (some (t, event))) : event.ReportsOn i t := by
  obtain ⟨alpha, stale, rfl⟩ := State.exists_event_of_advance h
  exact ⟨rfl, rfl, rfl, rfl⟩

theorem follows (f : Objective K n ε) (x : Vector K n) (c : Config K)
    (o : Observer σ (Event K n)) (w : σ) :
    Solver.Follows (fun _ => minimize f x c) (minimizeUnobserved f x c) (EndsAt c) o w := by
  have h := (procedure f x c).follows (fun i s event => event.ReportsOn i s)
    (by rintro s report - ⟨⟩; exact ⟨rfl, rfl, rfl, rfl⟩)
    (fun _ _ _ _ h => reportsOn_of_advance (Except.mapError_eq_ok_iff.mp h)) o w
  rw [procedure_run] at h
  refine h.imp ?_
  rintro before event sol ⟨i, s, reports, rfl⟩
  exact {
    status := rfl
    x := reports.x.symm
    objective := reports.objective.symm
    gradient := reports.gradient.symm
    iterations := reports.iteration.symm
    history := fun unlimited =>
      Procedure.toList_history_endingAt (p := procedure f x c) unlimited (before ++ [event]) i s }

end QuasiNewton

namespace TrustRegion

/-- The result is that of the last of these events, at which the run was stopped. -/
structure EndsAt (c : Config K) (before : List (Event K n)) (event : Event K n)
    (sol : Solution K n) : Prop where
  status : sol.status = .stopped
  x : sol.final.x = event.record.x
  objective : sol.final.value = event.record.objective
  gradient : sol.final.gradient = event.gradient
  radius : sol.radius = event.record.radius
  iterations : sol.iterations = event.record.iteration
  history : c.historyLimit = none → sol.history.toList = (before ++ [event]).map Event.record

theorem reportsOn_of_advance {f : Objective K n ε} {c : Config K} {i : Nat} {s t : State K n}
    {event : Event K n} (h : s.advance f c i = .ok (some (t, event))) : event.ReportsOn i t := by
  obtain ⟨o, stale, -, rfl, -⟩ := State.advances_of_advance h
  exact t.event_reportsOn i o _ stale

theorem follows (f : Objective K n ε) (x : Vector K n) (c : Config K)
    (o : Observer σ (Event K n)) (w : σ) :
    Solver.Follows (fun _ => minimize f x c) (minimizeUnobserved f x c) (EndsAt c) o w := by
  have h := (procedure f x c).follows (fun i s event => event.ReportsOn i s)
    (by rintro s report - ⟨⟩; exact s.startEvent_reportsOn)
    (fun _ _ _ _ h => reportsOn_of_advance (Except.mapError_eq_ok_iff.mp h)) o w
  rw [procedure_run] at h
  refine h.imp ?_
  rintro before event sol ⟨i, s, reports, rfl⟩
  exact {
    status := rfl
    x := reports.x.symm
    objective := reports.objective.symm
    gradient := reports.gradient.symm
    radius := reports.radius.symm
    iterations := reports.iteration.symm
    history := fun unlimited =>
      Procedure.toList_history_endingAt (p := procedure f x c) unlimited (before ++ [event]) i s }

end TrustRegion

namespace Broyden

structure Event.ReportsOn (e : Event K n) (i : Nat) (s : State K n) : Prop where
  iteration : e.record.iteration = i
  x : e.record.x = s.current.x
  residuals : e.residuals = s.current.residuals

/-- The result is that of the last of these events, at which the run was stopped. -/
structure EndsAt (c : Config K) (before : List (Event K n)) (event : Event K n)
    (sol : Solution K n) : Prop where
  status : sol.status = .stopped
  x : sol.final.x = event.record.x
  residuals : sol.final.residuals = event.residuals
  iterations : sol.iterations = event.record.iteration
  history : c.historyLimit = none → sol.history.toList = (before ++ [event]).map Event.record

theorem reportsOn_of_advance {f : System K n ε} {c : Config K} {i : Nat} {s t : State K n}
    {event : Event K n} (h : s.advance f c i = .ok (some (t, event))) : event.ReportsOn i t := by
  obtain ⟨a, -, rfl, rfl⟩ := State.exists_accepted_of_advance h
  exact ⟨rfl, rfl, rfl⟩

theorem follows (f : System K n ε) (x : Vector K n) (c : Config K) (o : Observer σ (Event K n))
    (w : σ) : Solver.Follows (fun _ => solve f x c) (solveUnobserved f x c) (EndsAt c) o w := by
  have h := (procedure f x c).follows (fun i s event => event.ReportsOn i s)
    (by rintro s report - ⟨⟩; exact ⟨rfl, rfl, rfl⟩)
    (fun _ _ _ _ h => reportsOn_of_advance (Except.mapError_eq_ok_iff.mp h)) o w
  rw [procedure_run] at h
  refine h.imp ?_
  rintro before event sol ⟨i, s, reports, rfl⟩
  exact {
    status := rfl
    x := reports.x.symm
    residuals := reports.residuals.symm
    iterations := reports.iteration.symm
    history := fun unlimited =>
      Procedure.toList_history_endingAt (p := procedure f x c) unlimited (before ++ [event]) i s }

end Broyden

namespace Constrained

/-- The result is that of the last of these events, at which the run was stopped. The iterate counts
as converged if its measure is below the tolerance. -/
structure EndsAt (tolerance : K) (historyLimit : Option Nat) (before : List (Record K n))
    (event : Record K n) (sol : Solution K n) : Prop where
  status : sol.status = if event.measure.value < tolerance then .converged else .stopped
  last : sol.last = event
  history : historyLimit = none → sol.history.toList = before ++ [event]

theorem Reduction.follows (r : Reduction K n ε) (f : Objective K n ε) (x : Vector K n)
    (check : Except (Error K ε) Unit) (maxOuterIters : Nat) (historyLimit : Option Nat)
    (o : Observer σ (Record K n)) (w : σ) :
    (r.procedure f x check maxOuterIters historyLimit).run.Follows
      ((r.procedure f x check maxOuterIters historyLimit).run Unit .silent ()).1
      (EndsAt r.tolerance historyLimit) o w := by
  have h := (r.procedure f x check maxOuterIters historyLimit).follows
    (fun _ s event => event = s.last ∧ 0 < s.last.iteration) nofun ?_ o w
  · refine h.imp ?_
    rintro before event sol ⟨i, s, ⟨rfl, positive⟩, rfl⟩
    refine ⟨?_, rfl, ?_⟩
    · simp [procedure, solution, Procedure.endingAt, Iteration.statusAtStop, iteration, positive]
    · intro unlimited
      have hhistory := Procedure.toList_history_endingAt
        (p := r.procedure f x check maxOuterIters historyLimit) unlimited (before ++ [s.last]) i s
      exact hhistory.trans (List.map_id _)
  · intro i s t event hadvance
    obtain ⟨rfl, inner, advances⟩ := advance_eq_some_iff.mp hadvance
    exact ⟨rfl, advances.iteration ▸ Nat.succ_pos i⟩

section Methods

variable (f : Objective K n ε) (c : ConstraintSet K n) (x : Vector K n)
  (o : Observer σ (Record K n)) (w : σ)

theorem Penalty.follows (config : Config K) :
    Solver.Follows (fun _ => minimize f c x config) (minimizeUnobserved f c x config)
      (EndsAt config.tolerance config.historyLimit) o w := by
  have h := (reduction f c config).follows f x (config.validate.mapError .invalidConfig)
    config.maxOuterIters config.historyLimit o w
  rwa [← procedure, procedure_run] at h

theorem AugmentedLagrangian.follows (config : Config K) :
    Solver.Follows (fun _ => minimize f c x config) (minimizeUnobserved f c x config)
      (EndsAt config.tolerance config.historyLimit) o w := by
  have h := (reduction f c config).follows f x (config.validate.mapError .invalidConfig)
    config.maxOuterIters config.historyLimit o w
  rwa [← procedure, procedure_run] at h

theorem Barrier.follows (config : Config K) :
    Solver.Follows (fun _ => minimize f c x config) (minimizeUnobserved f c x config)
      (EndsAt config.tolerance config.historyLimit) o w := by
  have h := (reduction f c config).follows f x
    (config.validate.mapError .invalidConfig >>= fun () => checkStart c x)
    config.maxOuterIters config.historyLimit o w
  rwa [← procedure, procedure_run] at h

theorem ProjectedGradient.follows (b : Box K n) (config : Config K) :
    Solver.Follows (fun _ => minimize f b x config) (minimizeUnobserved f b x config)
      (EndsAt config.tolerance config.historyLimit) o w := by
  have h := (procedure f b x config).follows (fun _ s event => event = s.last) nofun ?_ o w
  · rw [procedure_run] at h
    refine h.imp ?_
    rintro before event sol ⟨i, s, rfl, rfl⟩
    refine ⟨?_, rfl, ?_⟩
    · simp [procedure, solution, Procedure.endingAt, Iteration.statusAtStop, iteration]
    · intro unlimited
      have hhistory := Procedure.toList_history_endingAt (p := procedure f b x config) unlimited
        (before ++ [s.last]) i s
      exact hhistory.trans (List.map_id _)
  · intro i s t event hadvance
    obtain ⟨alpha, next, -, rfl, rfl⟩ := exists_found_of_advance hadvance
    rfl

end Methods

end Constrained

/-- Whatever its observer does, a run of any of the methods follows the run that nobody stops. -/
theorem observed_follows_unobserved (f : Objective K n ε) (c : ConstraintSet K n) (b : Box K n)
    (system : Broyden.System K n ε) (x : Vector K n) (σ : Type) :
    (∀ config (o : Observer σ (QuasiNewton.Event K n)) w,
      Solver.Follows (fun _ => QuasiNewton.minimize f x config)
        (QuasiNewton.minimizeUnobserved f x config) (QuasiNewton.EndsAt config) o w) ∧
    (∀ config (o : Observer σ (TrustRegion.Event K n)) w,
      Solver.Follows (fun _ => TrustRegion.minimize f x config)
        (TrustRegion.minimizeUnobserved f x config) (TrustRegion.EndsAt config) o w) ∧
    (∀ config (o : Observer σ (Constrained.Record K n)) w,
      Solver.Follows (fun _ => Constrained.Penalty.minimize f c x config)
        (Constrained.Penalty.minimizeUnobserved f c x config)
        (Constrained.EndsAt config.tolerance config.historyLimit) o w) ∧
    (∀ config (o : Observer σ (Constrained.Record K n)) w,
      Solver.Follows (fun _ => Constrained.Barrier.minimize f c x config)
        (Constrained.Barrier.minimizeUnobserved f c x config)
        (Constrained.EndsAt config.tolerance config.historyLimit) o w) ∧
    (∀ config (o : Observer σ (Constrained.Record K n)) w,
      Solver.Follows (fun _ => Constrained.AugmentedLagrangian.minimize f c x config)
        (Constrained.AugmentedLagrangian.minimizeUnobserved f c x config)
        (Constrained.EndsAt config.tolerance config.historyLimit) o w) ∧
    (∀ config (o : Observer σ (Constrained.Record K n)) w,
      Solver.Follows (fun _ => Constrained.ProjectedGradient.minimize f b x config)
        (Constrained.ProjectedGradient.minimizeUnobserved f b x config)
        (Constrained.EndsAt config.tolerance config.historyLimit) o w) ∧
    ∀ config (o : Observer σ (Broyden.Event K n)) w,
      Solver.Follows (fun _ => Broyden.solve system x config)
        (Broyden.solveUnobserved system x config) (Broyden.EndsAt config) o w := by
  refine ⟨?_, ?_, ?_, ?_, ?_, ?_, ?_⟩ <;> intro config o w
  · exact QuasiNewton.follows f x config o w
  · exact TrustRegion.follows f x config o w
  · exact Constrained.Penalty.follows f c x o w config
  · exact Constrained.Barrier.follows f c x o w config
  · exact Constrained.AugmentedLagrangian.follows f c x o w config
  · exact Constrained.ProjectedGradient.follows f x o w b config
  · exact Broyden.follows system x config o w

end LocalOptimization
