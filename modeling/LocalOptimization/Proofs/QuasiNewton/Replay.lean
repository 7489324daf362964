import Mathlib
import LocalOptimization.Proofs.Double
import LocalOptimization.Proofs.Procedure.Log
import LocalOptimization.Proofs.Procedure.Methods
import LocalOptimization.Proofs.QuasiNewton.Descent

/-!
# Replaying line-search descent

The curvature model of a run is a cache: what it has learned is what the pairs of the log teach a
new model. So every iteration follows from the log before it, down to the direction that it takes
and the first step length that it tries.
-/

namespace LocalOptimization.QuasiNewton

section Learned

variable {K : Type} [Scalar K] {n : Nat}

/-- The step from one report to the next and the change of the gradient along it. -/
def Event.pair (before after : Event K n) : Vector K n × Vector K n :=
  (after.record.x - before.record.x, after.gradient - before.gradient)

/-- The model that has been offered all pairs of the log. -/
def learned (c : Config K) (log : List (Event K n)) : Curvature K n :=
  (changes Event.pair log).foldl Curvature.learn c.method.initial

/-- The direction from the last report of the log: that of the model, or steepest descent where its
slope is at least zero or no number. -/
def heading (c : Config K) (log : List (Event K n)) (before : Event K n) : Vector K n :=
  let d := (learned c log).direction before.gradient
  let slope := dot before.gradient d
  if 0.0 ≤ slope ∨ Scalar.isNaN slope = true then -before.gradient else d

/-- The first step length to try from the last report of the log, which is 1 once a pair of the log
has been taken in. -/
def firstTrial (log : List (Event K n)) (before : Event K n) : K :=
  if log.tail.any fun e => !e.record.stale then 1.0
  else Scalar.min (1.0 / norm before.gradient) 1.0

theorem learned_concat (c : Config K) (log : List (Event K n)) (before after : Event K n) :
    learned c (log ++ [before] ++ [after]) =
      (learned c (log ++ [before])).learn (before.pair after) := by
  rw [learned, changes_concat, List.foldl_concat]
  rfl

end Learned

variable {n : Nat} {ε σ : Type} {f : Objective Float n ε} {c : Config Float} {x : Vector Float n}

/-- The report on the start. -/
structure Starts (f : Objective Float n ε) (x : Vector Float n) (e : Event Float n) : Prop where
  iteration : e.record.iteration = 0
  x : e.record.x = x
  objective : f.value e.record.x = .ok e.record.objective
  gradient : f.gradient e.record.x = .ok e.gradient
  gradientNorm : e.record.gradientNorm = norm e.gradient
  stale : e.record.stale = false

/-- The report `after` follows from the log, which ends with `before`: the search starts along the
direction and with the step length that the log determines, the run moves along the step that it
hands back, and the report tells whether the model that the log teaches skips the new pair. -/
structure Replays (f : Objective Float n ε) (c : Config Float) (log : List (Event Float n))
    (before after : Event Float n) : Prop where
  iteration : after.record.iteration = before.record.iteration + 1
  searched : ∃ step, c.lineSearch.search f {
      x := before.record.x
      value := before.record.objective
      gradient := before.gradient
      direction := heading c log before } (firstTrial log before) = .ok step ∧
    (step.satisfied || step.decreases before.record.objective) = true ∧
    after.record.stepLength = step.alpha ∧ after.record.objective = step.value
  x : after.record.x = before.record.x + after.record.stepLength * heading c log before
  gradient : f.gradient after.record.x = .ok after.gradient
  gradientNorm : after.record.gradientNorm = norm after.gradient
  stale : after.record.stale = true ↔
    (learned c log).update? (after.record.x - before.record.x)
      (after.gradient - before.gradient) = none

/-- The log leads to the state after `i` iterations, and ends with a report on it. -/
structure LeadsTo (f : Objective Float n ε) (c : Config Float) (x : Vector Float n) (i : Nat)
    (earlier : List (Event Float n)) (last : Event Float n) (s : State Float n) : Prop where
  iteration : last.record.iteration = i
  iterate : last.record.x = s.current.x
  objective : last.record.objective = s.current.value
  gradient : last.gradient = s.current.gradient
  model : s.model = learned c (earlier ++ [last])
  scaled : s.scaled = (earlier ++ [last]).tail.any fun e => !e.record.stale
  replayable : Replayable (Starts f x) (Replays f c) (earlier ++ [last])

theorem leadsTo_of_start {s : State Float n} (h : start f c x = .ok s) :
    LeadsTo f c x 0 [] (s.event 0 0.0 false) s := by
  obtain ⟨-, -, e, hevaluate, -, rfl⟩ := start_eq_ok_iff.mp h
  obtain ⟨rfl, hvalue, hgradient⟩ := Objective.evaluate_eq_ok_iff.mp hevaluate
  exact ⟨rfl, rfl, rfl, rfl, rfl, rfl,
    replayable_singleton ⟨rfl, rfl, hvalue, hgradient, rfl, rfl⟩⟩

namespace LeadsTo

variable {i : Nat} {earlier : List (Event Float n)} {before after : Event Float n}
  {s t : State Float n}

theorem direction (leadsTo : LeadsTo f c x i earlier before s) :
    s.direction = heading c (earlier ++ [before]) before := by
  simp only [State.direction, heading, leadsTo.model, leadsTo.gradient, Double.neg_iff, ite_not]

theorem initialStep (leadsTo : LeadsTo f c x i earlier before s) :
    s.initialStep = firstTrial (earlier ++ [before]) before := by
  rw [State.initialStep, firstTrial, leadsTo.scaled, leadsTo.gradient]
  rfl

theorem replays_of_advance (leadsTo : LeadsTo f c x i earlier before s)
    (h : s.advance f c (i + 1) = .ok (some (t, after))) :
    Replays f c (earlier ++ [before]) before after := by
  obtain ⟨step, gradient, hsearch, haccepted, hgradient, hmove⟩ := State.exists_step_of_advance h
  rw [State.moveTo_eq] at hmove
  cases hmove
  rw [leadsTo.initialStep] at hsearch
  exact {
    iteration := congrArg (· + 1) leadsTo.iteration.symm
    searched := by
      rw [leadsTo.iterate, leadsTo.objective, leadsTo.gradient, ← leadsTo.direction]
      exact ⟨step, hsearch, haccepted, rfl, rfl⟩
    x := by
      rw [leadsTo.iterate, ← leadsTo.direction]
      rfl
    gradient := hgradient
    gradientNorm := rfl
    stale := by
      rw [leadsTo.iterate, leadsTo.gradient, ← leadsTo.model]
      exact Option.isNone_iff_eq_none }

theorem concat (leadsTo : LeadsTo f c x i earlier before s)
    (h : s.advance f c (i + 1) = .ok (some (t, after))) :
    LeadsTo f c x (i + 1) (earlier ++ [before]) after t := by
  have replayable := leadsTo.replayable.concat (leadsTo.replays_of_advance h)
  obtain ⟨step, gradient, -, -, -, hmove⟩ := State.exists_step_of_advance h
  rw [State.moveTo_eq] at hmove
  cases hmove
  exact {
    iteration := rfl
    iterate := rfl
    objective := rfl
    gradient := rfl
    model := by
      rw [learned_concat, Event.pair, leadsTo.iterate, leadsTo.gradient, ← leadsTo.model]
      rfl
    scaled := by
      rw [List.tail_append_of_ne_nil (by simp), List.any_append, ← leadsTo.scaled]
      simp [State.event]
    replayable := replayable }

end LeadsTo

theorem exists_replayable_of_minimize {o : Observer σ (Event Float n)} {w : σ}
    {sol : Solution Float n} (h : (minimize f x c o w).1 = .ok sol)
    (unlimited : c.historyLimit = none) :
    ∃ log, sol.history.toList = log.map Event.record ∧
      Replayable (Starts f x) (Replays f c) log := by
  obtain ⟨earlier, last, e, hhistory, leadsTo, rfl⟩ :=
    Procedure.exists_log_of_reports id (P := LeadsTo f c x) (procedure_run f x c) unlimited rfl
      (fun s hs => ⟨_, rfl, leadsTo_of_start hs⟩)
      (fun i earlier last s t e leadsTo hadvance =>
        ⟨e, rfl, leadsTo.concat (Except.mapError_eq_ok_iff.mp hadvance)⟩) h
  exact ⟨earlier ++ [last], hhistory, leadsTo.replayable⟩

end LocalOptimization.QuasiNewton
