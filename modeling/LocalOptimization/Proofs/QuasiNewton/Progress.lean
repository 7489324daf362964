import Mathlib
import LocalOptimization.Proofs.LineSearch.Progress
import LocalOptimization.Proofs.Procedure.Methods
import LocalOptimization.Proofs.Procedure.Outcome
import LocalOptimization.Proofs.Procedure.Progress
import LocalOptimization.Proofs.QuasiNewton.Descent

/-!
# Every iteration makes progress

Whatever its curvature model proposes, a run searches in a direction of descent and from a positive
step length. What its line search guarantees of the steps that are taken therefore relates all
consecutive records.
-/

namespace LocalOptimization.QuasiNewton

section Chain

variable {K : Type} [Scalar K] {n : Nat} {ε σ : Type} {f : Objective K n ε} {c : Config K}
  {x : Vector K n}

theorem isChain_shown {Q : Event K n → Event K n → Prop}
    (hstep : ∀ events s t before after alpha stale, Reaches f c x events s →
      before = s.event events.length alpha stale → (iteration f c).converged s = false →
      s.advance f c (events.length + 1) = .ok (some (t, after)) → Q before after)
    (o : Observer σ (Event K n)) (w : σ) :
    (Solver.shown (fun _ => minimize f x c) o w).IsChain Q ∧
      ∀ sol, (minimize f x c o w).1 = .ok sol →
        sol.history.toList <:+ (Solver.shown (fun _ => minimize f x c) o w).map Event.record := by
  have hchain := (procedure f x c).isChain_shown
    (I := fun i s event => ∃ events, Reaches f c x events s ∧ events.length = i ∧
      ∃ alpha stale, event = s.event i alpha stale) (Q := Q) rfl ?start ?step o w
  case start =>
    intro s hs
    exact ⟨[], ⟨s, hs, .nil 0 s⟩, rfl, 0.0, false, rfl⟩
  case step =>
    rintro i s t before event ⟨events, reaches, rfl, alpha, stale, hbefore⟩ running hadvance
    have hadvance := Except.mapError_eq_ok_iff.mp hadvance
    exact ⟨⟨events ++ [event], reaches.concat running hadvance, by simp,
      State.exists_event_of_advance hadvance⟩,
      hstep events s t before event alpha stale reaches hbefore running hadvance⟩
  rw [procedure_run] at hchain
  refine ⟨hchain.1, fun sol hsol => ?_⟩
  obtain ⟨ending, rfl, hsuffix⟩ := hchain.2 sol hsol
  exact hsuffix

end Chain

variable {n : Nat} {ε σ : Type} {f : Objective ℝ n ε} {c : Config ℝ} {x : Vector ℝ n}

namespace State

/-- Steepest descent stands in where the model proposes no direction of descent. -/
theorem slope_ray_neg {s : State ℝ n} (h : s.current.gradient ≠ zeros) : s.ray.slope < 0 := by
  change dot s.current.gradient s.direction < 0
  rw [direction]
  split
  next hdescends => rwa [Exact.zero_eq] at hdescends
  next =>
    rw [Exact.dot_neg, neg_lt_zero]
    exact Exact.dot_self_pos h

theorem initialStep_pos {s : State ℝ n} (h : s.current.gradient ≠ zeros) : 0 < s.initialStep := by
  have hnorm : 0 < s.current.gradientNorm := Exact.norm_pos h
  rw [initialStep, Exact.one_eq, Exact.min_eq]
  split
  · exact one_pos
  · exact lt_min (one_div_pos.mpr hnorm) one_pos

end State

/-- How an iteration of the run from `x` leads from one record to the next: at the state that the
first one reports, the search hands back the step to the second one. -/
structure Progresses (f : Objective ℝ n ε) (c : Config ℝ) (x : Vector ℝ n)
    (before after : Record ℝ n) (s : State ℝ n) (step : LineSearch.Step ℝ n) : Prop where
  reaches : ∃ events, Reaches f c x events s ∧ events.length = before.iteration
  evaluates : f.Evaluates s.current
  reports : before.x = s.current.x ∧ before.objective = s.current.value
  search : c.lineSearch.search f s.ray s.initialStep = .ok step
  iteration : after.iteration = before.iteration + 1
  x : after.x = before.x + step.alpha * s.direction
  objective : after.objective = step.value
  stepLength : after.stepLength = step.alpha
  positive : 0 < after.stepLength
  descent : dot s.current.gradient s.direction < 0
  backtracking : ∀ b, c.lineSearch = .backtracking b →
    after.objective < before.objective ∧
      (step.satisfied = true → after.objective ≤
        before.objective + b.c1 * after.stepLength * dot s.current.gradient s.direction)
  strongWolfe : ∀ b, c.lineSearch = .strongWolfe b →
    after.objective ≤ before.objective + 2 * Scalar.epsilon * |before.objective| ∧
      (step.satisfied = false → after.objective < before.objective)

theorem Reaches.exists_progresses {events : List (Event ℝ n)} {s t : State ℝ n}
    {before after : Event ℝ n} {alpha : ℝ} {stale : Bool} (reaches : Reaches f c x events s)
    (hbefore : before = s.event events.length alpha stale)
    (running : (iteration f c).converged s = false)
    (hadvance : s.advance f c (events.length + 1) = .ok (some (t, after))) :
    ∃ step, Progresses f c x before.record after.record s step := by
  have hvalid := reaches.validate_eq_ok
  have hgradient := gradient_ne_zeros hvalid running
  obtain ⟨step, gradient, hsearch, accepted, -, hmove⟩ := State.exists_step_of_advance hadvance
  obtain ⟨hpos, improves⟩ := LineSearch.improves_of_search
    (Config.validate_eq_ok_iff.mp hvalid).2.2 (State.slope_ray_neg hgradient)
    (State.initialStep_pos hgradient) hsearch accepted
  obtain ⟨stale', hevent⟩ := s.exists_event_moveTo (events.length + 1) step.alpha
    { x := s.ray.point step.alpha, value := step.value, gradient }
  rw [State.event, State.current_moveTo, ← hmove] at hevent
  subst hbefore hevent
  refine ⟨step, ⟨events, reaches, rfl⟩, reaches.evaluates, ⟨rfl, rfl⟩, hsearch, rfl, rfl, rfl, rfl,
    hpos, State.slope_ray_neg hgradient, ?_, ?_⟩
  · intro b hb
    rw [hb] at improves
    exact improves
  · intro b hb
    rw [hb, LineSearch.Improves, LineSearch.StrongWolfe.slack_eq] at improves
    exact improves

/-- Along every run the records progress one by one, those shown to the observer and those that a
result keeps. -/
theorem records_progress (f : Objective ℝ n ε) (x : Vector ℝ n) (c : Config ℝ)
    (o : Observer σ (Event ℝ n)) (w : σ) :
    ((Solver.shown (fun _ => minimize f x c) o w).map Event.record).IsChain
        (fun before after => ∃ s step, Progresses f c x before after s step) ∧
      ∀ sol, (minimize f x c o w).1 = .ok sol → sol.history.toList.IsChain
        fun before after => ∃ s step, Progresses f c x before after s step := by
  obtain ⟨hshown, hhistory⟩ := isChain_shown
    (Q := fun before after => ∃ s step, Progresses f c x before.record after.record s step)
    (fun events s t before after alpha stale reaches hbefore running hadvance =>
      ⟨s, reaches.exists_progresses hbefore running hadvance⟩) o w
  have hrecords : ((Solver.shown (fun _ => minimize f x c) o w).map Event.record).IsChain
      fun before after => ∃ s step, Progresses f c x before after s step :=
    (List.isChain_map Event.record).mpr hshown
  exact ⟨hrecords, fun sol hsol => hrecords.suffix (hhistory sol hsol)⟩

end LocalOptimization.QuasiNewton
