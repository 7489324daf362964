import Mathlib
import LocalOptimization.Proofs.Curvature.SecantEquation
import LocalOptimization.Proofs.Procedure.Log
import LocalOptimization.Proofs.Procedure.Methods
import LocalOptimization.Proofs.TrustRegion.Transition

/-!
# Replaying a trust region

The Hessian of the model and its source change with accepted steps only. What they are at a report
is determined by the log before it: by the objective at the iterate, or by the pairs of the steps
that were accepted. So every iteration follows from the log before it.
-/

namespace LocalOptimization.TrustRegion

variable {K : Type} [Scalar K] {n : Nat} {ε σ : Type}

/-- A report with the Hessian of the model from there. -/
structure Snapshot (K : Type) (n : Nat) where
  report : Event K n
  hessian : Matrix K n

/-- The model that the next step minimizes. -/
def Snapshot.model (a : Snapshot K n) : Model K n where
  gradient := a.report.gradient
  hessian := a.hessian

/-- The next step to try. -/
def Snapshot.trial (a : Snapshot K n) (c : Config K) : Trial K n :=
  c.subproblem.solve a.model a.report.record.radius

/-- The step from one report to the next and the change of the gradient along it, if the step was
accepted. -/
def Snapshot.pair? (c : Config K) (before after : Snapshot K n) :
    Option (Vector K n × Vector K n) :=
  if after.report.record.accepted then
    some ((before.trial c).p, after.report.gradient - before.report.gradient)
  else none

/-- The rank-one model that has been offered the pairs of all accepted steps of the log. -/
def learned (c : Config K) (log : List (Snapshot K n)) : SymmetricRankOne K n :=
  (changes (Snapshot.pair? c) log).reduceOption.foldl (offer SymmetricRankOne.update?) .initial

/-- The Hessian of the last snapshot of the log is that of the objective at the iterate, or else the
chosen replacement. -/
structure Provided (f : Objective K n ε) (c : Config K) (log : List (Snapshot K n))
    (last : Snapshot K n) : Prop where
  evaluated : ∃ provided, f.hessian last.report.record.x = .ok provided
  objective : ∀ h, f.hessian last.report.record.x = .ok (some h) → last.hessian = h
  difference : f.hessian last.report.record.x = .ok none → c.hessian = .finiteDifference →
    Difference.hessian f.gradient last.report.record.x = .ok last.hessian
  rankOne : f.hessian last.report.record.x = .ok none → c.hessian = .sr1 →
    last.hessian = (learned c log).hessian

/-- The report on the start. -/
structure Starts (f : Objective K n ε) (x : Vector K n) (c : Config K) (e : Event K n) : Prop where
  iteration : e.record.iteration = 0
  x : e.record.x = x
  objective : f.value e.record.x = .ok e.record.objective
  gradient : f.gradient e.record.x = .ok e.gradient
  gradientNorm : e.record.gradientNorm = norm e.gradient
  radius : e.record.radius = c.initialRadius
  accepted : e.record.accepted = false
  stale : e.record.stale = false

/-- The report `after` follows from the log, which ends with `before`: the iteration tried the step
that minimizes the model with the Hessian that the log determines, and reports whether the step was
accepted with a pair that the rank-one model of the log skips. -/
structure Replays (f : Objective K n ε) (c : Config K) (log : List (Snapshot K n))
    (before after : Snapshot K n) : Prop where
  hessian : Provided f c log before
  transition : ∃ value,
    Transition f c before.report after.report before.model (before.trial c) value
  gradient : f.gradient after.report.record.x = .ok after.report.gradient
  stale : after.report.record.stale = true ↔
    after.report.record.accepted = true ∧ c.hessian = .sr1 ∧
      (learned c log).update? (before.trial c).p
        (after.report.gradient - before.report.gradient) = none

/-- The source of Hessians after the steps of the log. -/
def source (c : Config K) (log : List (Snapshot K n)) : HessianSource K n :=
  match c.hessian with
  | .finiteDifference => .finiteDifference
  | .sr1 => .sr1 (learned c log)

variable {f : Objective K n ε} {c : Config K} {x : Vector K n}

section Learned

variable {log earlier : List (Snapshot K n)} {before after : Snapshot K n}

theorem learned_of_accepted (h : after.report.record.accepted = true) :
    learned c (earlier ++ [before] ++ [after]) =
      offer SymmetricRankOne.update? (learned c (earlier ++ [before]))
        ((before.trial c).p, after.report.gradient - before.report.gradient) := by
  rw [learned, changes_concat, Snapshot.pair?, if_pos h, List.reduceOption_append,
    List.reduceOption_singleton, Option.toList_some, List.foldl_concat]
  rfl

theorem learned_of_rejected (h : after.report.record.accepted = false) :
    learned c (earlier ++ [before] ++ [after]) = learned c (earlier ++ [before]) := by
  rw [learned, changes_concat, Snapshot.pair?, if_neg (by simp [h]), List.reduceOption_append,
    List.reduceOption_singleton, Option.toList_none, List.append_nil]
  rfl

theorem source_of_accepted (h : after.report.record.accepted = true) :
    source c (earlier ++ [before] ++ [after]) =
      ((source c (earlier ++ [before])).update? (before.trial c).p
        (after.report.gradient - before.report.gradient)).getD
          (source c (earlier ++ [before])) := by
  rw [source, source, learned_of_accepted h]
  cases c.hessian with
  | finiteDifference => rfl
  | sr1 =>
      simp only [HessianSource.update?, offer]
      cases (learned c (earlier ++ [before])).update? (before.trial c).p
        (after.report.gradient - before.report.gradient) <;> rfl

theorem source_of_rejected (h : after.report.record.accepted = false) :
    source c (earlier ++ [before] ++ [after]) = source c (earlier ++ [before]) := by
  rw [source, source, learned_of_rejected h]

theorem update_source_eq_none_iff {s y : Vector K n} :
    (source c log).update? s y = none ↔
      c.hessian = .sr1 ∧ (learned c log).update? s y = none := by
  rw [source]
  cases c.hessian <;> simp [HessianSource.update?]

theorem provided_of_source {last : Snapshot K n}
    (h : (source c log).hessian f last.report.record.x = .ok last.hessian) :
    Provided f c log last := by
  obtain ⟨provided, hprovided, h⟩ := Except.bind_eq_ok_iff.mp h
  refine ⟨⟨provided, hprovided⟩, ?_, ?_, ?_⟩ <;> rw [hprovided]
  · rintro given ⟨⟩
    exact (Except.ok.inj h).symm
  · rintro ⟨⟩ hchoice
    rw [source, hchoice] at h
    exact h
  · rintro ⟨⟩ hchoice
    rw [source, hchoice] at h
    exact (Except.ok.inj h).symm

end Learned

/-- The log leads to the state after `i` iterations, and ends with a report on it. -/
structure LeadsTo (f : Objective K n ε) (x : Vector K n) (c : Config K) (i : Nat)
    (earlier : List (Snapshot K n)) (last : Snapshot K n) (s : State K n) : Prop where
  reports : last.report.ReportsOn i s
  hessian : last.hessian = s.hessian
  source : s.source = source c (earlier ++ [last])
  provided : s.source.hessian f s.current.x = .ok s.hessian
  gradient : f.gradient s.current.x = .ok s.current.gradient
  replayable : Replayable (fun a => Starts f x c a.report) (Replays f c) (earlier ++ [last])

theorem leadsTo_of_start {s : State K n} (h : start f c x = .ok s) :
    LeadsTo f x c 0 [] { report := s.startEvent, hessian := s.hessian } s := by
  obtain ⟨-, -, e, hessian, hevaluate, hhessian, -, rfl⟩ := start_eq_ok_iff.mp h
  obtain ⟨rfl, hvalue, hgradient⟩ := Objective.evaluate_eq_ok_iff.mp hevaluate
  refine ⟨State.startEvent_reportsOn _, rfl, ?_, hhessian, hgradient,
    replayable_singleton ⟨rfl, rfl, hvalue, hgradient, rfl, rfl, rfl, rfl⟩⟩
  rw [TrustRegion.source]
  cases c.hessian <;> rfl

namespace LeadsTo

variable {i : Nat} {earlier : List (Snapshot K n)} {before : Snapshot K n}
variable {s t : State K n} {o : Outcome K n} {stale : Bool}

theorem model_eq (leadsTo : LeadsTo f x c i earlier before s) : before.model = s.model := by
  rw [Snapshot.model, leadsTo.reports.gradient, leadsTo.hessian]
  rfl

theorem trial_eq (leadsTo : LeadsTo f x c i earlier before s) (advances : s.Advances f c t o) :
    before.trial c = o.trial := by
  rw [Snapshot.trial, leadsTo.model_eq, leadsTo.reports.radius]
  exact (State.tryStep_eq_ok_iff.mp advances.tried).1.symm

theorem gradient_of_advances (leadsTo : LeadsTo f x c i earlier before s)
    (advances : s.Advances f c t o) : f.gradient t.current.x = .ok t.current.gradient := by
  by_cases haccepted : c.eta < o.ratio
  · exact advances.gradient haccepted
  · rw [(advances.kept haccepted).1]
    exact leadsTo.gradient

variable [OrderedScalar K]

theorem replays (leadsTo : LeadsTo f x c i earlier before s) (valid : c.Valid)
    (advances : s.Advances f c t o) (learns : c.eta < o.ratio → s.Learns t o stale)
    (hstale : ¬ c.eta < o.ratio → stale = false) :
    Replays f c (earlier ++ [before]) before {
      report := t.event (i + 1) o (decide (c.eta < o.ratio)) stale
      hessian := t.hessian } where
  hessian := by
    apply provided_of_source
    rw [leadsTo.reports.x, leadsTo.hessian, ← leadsTo.source]
    exact leadsTo.provided
  transition := by
    rw [leadsTo.model_eq, leadsTo.trial_eq advances]
    exact ⟨o.value, advances.transition valid leadsTo.reports ⟨_, leadsTo.provided⟩ hstale rfl⟩
  gradient := leadsTo.gradient_of_advances advances
  stale := by
    rw [leadsTo.trial_eq advances, leadsTo.reports.gradient, ← update_source_eq_none_iff,
      ← leadsTo.source, ← Option.isNone_iff_eq_none]
    change stale = true ↔ decide (c.eta < o.ratio) = true ∧ _
    rw [decide_eq_true_iff]
    by_cases haccepted : c.eta < o.ratio
    · rw [(learns haccepted).stale]
      exact (and_iff_right haccepted).symm
    · simp [hstale haccepted, haccepted]

theorem concat (leadsTo : LeadsTo f x c i earlier before s) (valid : c.Valid)
    (advances : s.Advances f c t o) (learns : c.eta < o.ratio → s.Learns t o stale)
    (hstale : ¬ c.eta < o.ratio → stale = false) :
    LeadsTo f x c (i + 1) (earlier ++ [before]) {
      report := t.event (i + 1) o (decide (c.eta < o.ratio)) stale
      hessian := t.hessian } t where
  reports := t.event_reportsOn _ _ _ _
  hessian := rfl
  source := by
    by_cases haccepted : c.eta < o.ratio
    · rw [source_of_accepted (decide_eq_true haccepted), leadsTo.trial_eq advances,
        leadsTo.reports.gradient, ← leadsTo.source]
      exact (learns haccepted).source
    · rw [source_of_rejected (decide_eq_false haccepted), ← leadsTo.source]
      exact (advances.kept haccepted).2.2
  provided := by
    by_cases haccepted : c.eta < o.ratio
    · exact advances.hessian haccepted
    · -- The Hessian is not taken again, but at the same iterate the source still gives this one.
      obtain ⟨hcurrent, hhessian, hsource⟩ := advances.kept haccepted
      rw [hcurrent, hhessian, hsource]
      exact leadsTo.provided
  gradient := leadsTo.gradient_of_advances advances
  replayable := leadsTo.replayable.concat (leadsTo.replays valid advances learns hstale)

end LeadsTo

theorem exists_replayable_of_minimize [OrderedScalar K] {o : Observer σ (Event K n)} {w : σ}
    {sol : Solution K n} (h : (minimize f x c o w).1 = .ok sol)
    (unlimited : c.historyLimit = none) :
    ∃ log : List (Snapshot K n), sol.history.toList = log.map (fun a => a.report.record) ∧
      Replayable (fun a => Starts f x c a.report) (Replays f c) log := by
  have valid : c.Valid := by
    obtain ⟨first, -, -, hstart, -⟩ := Procedure.exists_outcome_of_run (procedure_run f x c) h
    exact (start_eq_ok_iff.mp hstart).1
  obtain ⟨earlier, last, e, hhistory, leadsTo, rfl⟩ :=
    Procedure.exists_log_of_reports Snapshot.report (P := LeadsTo f x c)
      (procedure_run f x c) unlimited rfl (fun s hs => ⟨_, rfl, leadsTo_of_start hs⟩)
      (fun i earlier last s t e leadsTo hadvance => by
        obtain ⟨o, stale, advances, rfl, learns, hstale⟩ :=
          State.learns_of_advance (Except.mapError_eq_ok_iff.mp hadvance)
        exact ⟨_, rfl, leadsTo.concat valid advances learns hstale⟩) h
  exact ⟨earlier ++ [last], hhistory, leadsTo.replayable⟩

end LocalOptimization.TrustRegion
