import Mathlib
import LocalOptimization.Proofs.Box
import LocalOptimization.Proofs.Constrained.ProjectedGradient.Convergence
import LocalOptimization.Proofs.Procedure.Reports
import LocalOptimization.Proofs.Univariate

/-!
# Iterates of the projected gradient method

The gradient at an accepted point is not checked, and a projection leaves an undefined entry as it
is. What keeps such points out is the test of the slope: it passes only where the slope is a number,
and then every entry of the trial is one. Every record follows from the one before by an accepted
step, so that without rounding the objective decreases from record to record.
-/

namespace LocalOptimization.Constrained.ProjectedGradient

variable {n : Nat} {ε σ : Type}

section Step

variable {K : Type} [Scalar K] {f : Objective K n ε} {b : Box K n} {c : Config K} {x : Vector K n}

/-- An accepted step from the record `before`, where the objective has the gradient `g`. -/
structure Steps (f : Objective K n ε) (b : Box K n) (c : Config K) (g : Vector K n)
    (before after : Record K n) : Prop where
  gradient : f.gradient before.x = .ok g
  length : ∃ j < c.maxBacktracks, after.parameter = (· * c.shrink)^[j] c.initialStep
  x : after.x = b.project (before.x - after.parameter * g)
  value : f.value after.x = .ok after.objective
  finite : f.isFiniteAt after.x after.objective = true
  descent : dot g (after.x - before.x) < 0.0
  decrease : after.objective ≤ before.objective + c.c1 * dot g (after.x - before.x)
  iteration : after.iteration = before.iteration + 1

/-- The record of the state tells of its iterate, which `i` iterations led to. -/
structure State.Consistent (f : Objective K n ε) (i : Nat) (s : State K n) : Prop where
  iteration : s.last.iteration = i
  x : s.last.x = s.current.x
  objective : s.last.objective = s.current.value
  gradient : f.gradient s.current.x = .ok s.current.gradient

theorem State.consistent_of_start {s : State K n} (h : start f b x c = .ok s) :
    s.Consistent f 0 := by
  obtain ⟨-, -, e, he, -, rfl⟩ := start_eq_ok_iff.mp h
  obtain ⟨hx, -, hgradient⟩ := Objective.evaluate_eq_ok_iff.mp he
  rw [← hx] at hgradient
  exact ⟨rfl, rfl, rfl, hgradient⟩

theorem State.Consistent.steps {i : Nat} {s t : State K n} {event : Record K n}
    (consistent : s.Consistent f i)
    (advanced : (ProjectedGradient.iteration f b c).advance (i + 1) s = .ok (some (t, event))) :
    t.Consistent f (i + 1) ∧ event = t.last ∧ Steps f b c s.current.gradient s.last event := by
  obtain ⟨alpha, next, hsearch, rfl, rfl⟩ := exists_arcSearch_of_advance advanced
  have found := found_of_arcSearch hsearch
  have haccepted := found.accepted
  simp only [accepts, Bool.and_eq_true, decide_eq_true_iff] at haccepted
  obtain ⟨⟨hfinite, hdescent⟩, hdecrease⟩ := haccepted
  refine ⟨⟨rfl, rfl, rfl, found.gradient⟩, rfl, ?_⟩
  exact {
    gradient := by rw [consistent.x]; exact consistent.gradient
    length := exists_iterate_of_arcSearch hsearch
    x := by rw [consistent.x]; exact found.x
    value := found.value
    finite := hfinite
    descent := by rw [consistent.x]; exact hdescent
    decrease := by rw [consistent.x, consistent.objective]; exact hdecrease
    iteration := by rw [consistent.iteration]; rfl }

theorem isChain_steps {s : State K n} (hstart : start f b x c = .ok s)
    (o : Observer σ (Record K n)) (w : σ) :
    (s.last :: Solver.shown (fun _ => minimize f b x c) o w).IsChain
        (fun before after => ∃ g, Steps f b c g before after) ∧
      ∀ sol, (minimize f b x c o w).1 = .ok sol →
        sol.history.toList <:+ Solver.shown (fun _ => minimize f b x c) o w := by
  have hfirst : (procedure f b x c).start = .ok s := hstart
  obtain ⟨events, t, chain, hshown, houtcome⟩ := Procedure.exists_outcome hfirst o w
  rw [procedure_run] at hshown houtcome
  rw [hshown]
  constructor
  · refine chain.isChain (P := fun i s before => s.Consistent f i ∧ before = s.last) ?_
      ⟨State.consistent_of_start hstart, rfl⟩
    rintro i s t before event ⟨consistent, rfl⟩ - advanced
    obtain ⟨hnext, hevent, steps⟩ := consistent.steps advanced
    exact ⟨⟨hnext, hevent⟩, _, steps⟩
  · intro sol hsol
    obtain ⟨e, outcome, rfl⟩ := houtcome sol hsol
    have hsuffix := outcome.history_suffix
    rwa [show (procedure f b x c).iteration.record = id from rfl, List.map_id] at hsuffix

end Step

section Double

variable {f : Objective Float n ε} {b : Box Float n} {c : Config Float} {x : Vector Float n}

theorem Found.contains {current next : Evaluation Float n} {alpha : Float}
    (found : Found f b c current alpha next) : b.contains next.x = true := by
  have haccepted := found.accepted
  simp only [accepts, Bool.and_eq_true, decide_eq_true_iff] at haccepted
  have hslope := ((Double.lt_iff _ _).mp haccepted.1.2).1
  rw [found.x] at hslope ⊢
  apply Box.contains_project_of_isNaN
  intro i
  have hmove := (Double.isNaN_eq_false_of_dot hslope i).2
  rw [Vector.get_eq_getElem, Vector.getElem_sub] at hmove
  exact (Double.isNaN_eq_false_of_sub hmove).1

theorem contains_of_start {s : State Float n} (h : start f b x c = .ok s) :
    b.contains s.last.x = true := by
  obtain ⟨-, hfinite, e, he, -, rfl⟩ := start_eq_ok_iff.mp h
  change b.contains e.x = true
  rw [(Objective.evaluate_eq_ok_iff.mp he).1]
  exact b.contains_project_of_allFinite hfinite

theorem reports_contains (f : Objective Float n ε) (b : Box Float n) (x : Vector Float n)
    (c : Config Float) (o : Observer σ (Record Float n)) (w : σ) :
    ReportsAll (fun _ => minimize f b x c) (fun r => b.contains r.x = true) o w := by
  rw [← procedure_run]
  refine ((procedure f b x c).reports (I := fun s => b.contains s.last.x = true)
    (P := fun r => b.contains r.x = true) ?_ ?_ o w).imp (fun _ => id) ?_
  · intro s hs
    exact ⟨contains_of_start hs, List.forall_mem_nil _⟩
  · intro i s t event _ advanced
    obtain ⟨alpha, next, found, rfl, rfl⟩ := exists_found_of_advance advanced
    exact ⟨found.contains, found.contains⟩
  · rintro sol ⟨e, rfl, hlast, hhistory⟩
    refine ⟨hlast, ?_⟩
    intro record hrecord
    obtain ⟨event, hevent, rfl⟩ := hhistory record hrecord
    exact hevent

end Double

section Exact

variable {f : Objective ℝ n ε} {b : Box ℝ n} {c : Config ℝ} {x : Vector ℝ n}

theorem Steps.objective_lt {g : Vector ℝ n} {before after : Record ℝ n}
    (steps : Steps f b c g before after) (valid : c.Valid) :
    after.objective < before.objective := by
  have hc1 := ((Exact.inOpenUnit_iff _).mp valid.sufficientDecrease).1
  have hdescent := steps.descent
  rw [Exact.zero_eq] at hdescent
  have hpromised := mul_neg_of_pos_of_neg hc1 hdescent
  have hdecrease := steps.decrease
  linarith

theorem pairwise_objective_lt {s : State ℝ n} (hstart : start f b x c = .ok s)
    (o : Observer σ (Record ℝ n)) (w : σ) :
    (s.last :: Solver.shown (fun _ => minimize f b x c) o w).Pairwise
        (fun before after => after.objective < before.objective) ∧
      ∀ sol, (minimize f b x c o w).1 = .ok sol →
        sol.history.toList.Pairwise fun before after => after.objective < before.objective := by
  have valid := (start_eq_ok_iff.mp hstart).1
  obtain ⟨hchain, hhistory⟩ := isChain_steps hstart o w
  let Lowers (before after : Record ℝ n) : Prop := after.objective < before.objective
  have hlowers : (s.last :: Solver.shown (fun _ => minimize f b x c) o w).IsChain Lowers :=
    hchain.imp fun _ _ ⟨_, steps⟩ => steps.objective_lt valid
  have : Trans Lowers Lowers Lowers := ⟨fun hab hbc => lt_trans hbc hab⟩
  refine ⟨hlowers.pairwise, ?_⟩
  intro sol hsol
  exact (hlowers.pairwise.of_cons).sublist (hhistory sol hsol).sublist

end Exact

/-- On doubles every iterate lies in the box, whatever the objective returns, and every record
follows from the one before by an accepted step. Without rounding, the objective decreases strictly
from record to record. -/
theorem feasible_and_descending (f : Objective Float n ε) (b : Box Float n) (x : Vector Float n)
    (c : Config Float) (o : Observer σ (Record Float n)) (w : σ) (f' : Objective ℝ n ε)
    (b' : Box ℝ n) (x' : Vector ℝ n) (c' : Config ℝ) (o' : Observer σ (Record ℝ n)) (w' : σ) :
    ReportsAll (fun _ => minimize f b x c) (fun r => b.contains r.x = true) o w ∧
    (∀ s, start f b x c = .ok s → b.contains s.last.x = true ∧
      (s.last :: Solver.shown (fun _ => minimize f b x c) o w).IsChain
        (fun before after => ∃ g, Steps f b c g before after) ∧
      ∀ sol, (minimize f b x c o w).1 = .ok sol →
        sol.history.toList.IsChain fun before after => ∃ g, Steps f b c g before after) ∧
    ∀ s', start f' b' x' c' = .ok s' →
      (s'.last :: Solver.shown (fun _ => minimize f' b' x' c') o' w').Pairwise
        (fun before after => after.objective < before.objective) ∧
      ∀ sol, (minimize f' b' x' c' o' w').1 = .ok sol →
        sol.history.toList.Pairwise fun before after => after.objective < before.objective := by
  refine ⟨reports_contains f b x c o w, ?_, fun s' hstart => pairwise_objective_lt hstart o' w'⟩
  intro s hstart
  obtain ⟨hchain, hhistory⟩ := isChain_steps hstart o w
  refine ⟨contains_of_start hstart, hchain, ?_⟩
  intro sol hsol
  exact hchain.of_cons.suffix (hhistory sol hsol)

section Example

/-- A function that falls to 1 at 2, where it has no slope. -/
def cliff : Objective Float 1 Empty :=
  .univariate (fun t => if 2.0 < t then t else 1.0) (fun t => if 2.0 < t then 1.0 else Scalar.nan)

theorem feasible_and_descending_cliff :
    (∃ s sol, start cliff atLeastOne #v[3.0] {} = .ok s ∧
      minimizeUnobserved cliff atLeastOne #v[3.0] {} = .ok sol ∧
      sol.status = .gaveUp ∧ sol.last.x = #v[2.0] ∧ atLeastOne.contains sol.last.x = true ∧
      sol.history.toList.IsChain fun before after =>
        ∃ g, Steps cliff atLeastOne {} g before after) ∧
    ∃ s sol, start parabola interval #v[0] {} = .ok s ∧
      minimizeUnobserved parabola interval #v[0] {} = .ok sol ∧
      sol.history.toList.Pairwise fun before after => after.objective < before.objective := by
  have hrun : (minimizeUnobserved cliff atLeastOne #v[3.0] {}).toOption.map
      (fun sol => (sol.status, sol.last.x)) = some (.gaveUp, #v[2.0]) := by decide +kernel
  have hstart : (start cliff atLeastOne #v[3.0] {}).isOk = true := by decide +kernel
  obtain ⟨sol, hsol, hlast⟩ := Except.toOption_map_eq_some_iff.mp hrun
  obtain ⟨s, hs⟩ := Except.exists_eq_ok_of_isOk hstart
  have valid := Config.validate_eq_ok_iff.mp validate_default
  obtain ⟨s', tracks, hs'⟩ := exists_start smooth_parabola #v[0]
  obtain ⟨e, hsol', -⟩ := exists_ending smooth_parabola one_pos valid leastStep_default
    (hs' {} valid) tracks .silent ()
  obtain ⟨hcontains, hsteps, hlower⟩ := feasible_and_descending cliff atLeastOne #v[3.0] {} .silent
    () parabola interval #v[0] {} .silent ()
  exact ⟨⟨s, sol, hs, hsol, congrArg Prod.fst hlast, congrArg Prod.snd hlast,
    (hcontains.returned sol hsol).1, (hsteps s hs).2.2 sol hsol⟩,
    s', solution e, hs' {} valid, hsol', (hlower s' (hs' {} valid)).2 _ hsol'⟩

end Example

end LocalOptimization.Constrained.ProjectedGradient
