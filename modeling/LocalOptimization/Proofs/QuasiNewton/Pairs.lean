import Mathlib
import LocalOptimization.Proofs.Curvature.SecantEquation
import LocalOptimization.Proofs.QuasiNewton.Progress

/-!
# The pairs that a run offers

A strong Wolfe search that is satisfied ends where the slope has flattened. The pair of such a step
is curved by a known share of the slope at its start, so limited-memory BFGS skips it only if that
share is tiny.
-/

namespace LocalOptimization

namespace LineSearch

variable {n : Nat} {ε : Type} {f : Objective ℝ n ε} {r : Ray ℝ n} {alpha : ℝ} {s : Step ℝ n}

theorem StrongWolfe.exists_flat_of_search {c : StrongWolfe ℝ}
    (h : (strongWolfe c).search f r alpha = .ok s) (satisfied : s.satisfied = true) :
    ∃ g, s.gradient = some g ∧ c.Flat r g := by
  rw [search_eq_map_attempts] at h
  obtain ⟨steps, hsteps, rfl⟩ := Except.map_eq_ok_iff.mp h
  have hflat := forall_mem_of_collect
    (P := fun s => s.satisfied = true → ∃ g, s.gradient = some g ∧ c.Flat r g) ?_ hsteps
  · obtain ⟨t, ht, k, hselect⟩ := exists_mem_of_accepted (v := r.value) hsteps
      (by rw [satisfied, Bool.true_or])
    rw [hselect] at satisfied ⊢
    exact hflat t ht satisfied
  · intro done b s htrial hsatisfied
    obtain ⟨-, -, ⟨-, -, hunsatisfied⟩ | ⟨-, g, -, hgradient, hiff⟩⟩ := trial_cases htrial
    · rw [hsatisfied] at hunsatisfied
      cases hunsatisfied
    · exact ⟨g, hgradient, hiff.mp hsatisfied⟩

end LineSearch

namespace Curvature

variable {n : Nat} {m : Curvature ℝ n} {memory : Nat}

/-- The model is limited-memory BFGS, and keeps this many pairs. -/
def Remembers (m : Curvature ℝ n) (memory : Nat) : Prop :=
  ∃ model : Lbfgs ℝ n, m = .lbfgs model ∧ model.memory = memory

theorem Remembers.learn (remembers : m.Remembers memory) (p : Vector ℝ n × Vector ℝ n) :
    (m.learn p).Remembers memory := by
  obtain ⟨model, rfl, hmemory⟩ := remembers
  rw [Curvature.learn, update?]
  cases hupdate : model.update? p.1 p.2 with
  | none => exact ⟨model, rfl, hmemory⟩
  | some model' => exact ⟨model', rfl, (Lbfgs.memory_update hupdate).trans hmemory⟩

theorem Remembers.isNone_update_iff (remembers : m.Remembers memory) (hmemory : memory ≠ 0)
    (s y : Vector ℝ n) : (m.update? s y).isNone = true ↔ dot y s ≤ 1e-10 := by
  obtain ⟨model, rfl, rfl⟩ := remembers
  rw [update?, Option.isNone_map, Option.isNone_iff_eq_none, Lbfgs.update_eq_none_iff,
    or_iff_left hmemory]

end Curvature

namespace QuasiNewton

variable {n : Nat} {ε σ : Type} {f : Objective ℝ n ε} {c : Config ℝ} {x : Vector ℝ n}

theorem Reaches.remembers {memory : Nat} (hmethod : c.method = .lbfgs memory)
    {events : List (Event ℝ n)} {s : State ℝ n} (reaches : Reaches f c x events s) :
    s.model.Remembers memory := by
  apply reaches.invariant
  · intro first hstart
    obtain ⟨-, -, e, -, -, rfl⟩ := start_eq_ok_iff.mp hstart
    rw [hmethod]
    exact ⟨_, rfl, rfl⟩
  · intro i s t event remembers hadvance
    obtain ⟨p, hmodel⟩ := State.exists_learn_of_advance hadvance
    rw [hmodel]
    exact remembers.learn p

/-- How an iteration of the run from `x` leads from one event to the next: besides what the records
tell, the model is offered the pair between the two events. -/
structure Offers (f : Objective ℝ n ε) (c : Config ℝ) (x : Vector ℝ n) (before after : Event ℝ n)
    (s : State ℝ n) (step : LineSearch.Step ℝ n) : Prop
    extends Progresses f c x before.record after.record s step where
  gradient : before.gradient = s.current.gradient
  nextGradient : f.gradient after.record.x = .ok after.gradient
  stale : after.record.stale =
    (s.model.update? (after.record.x - before.record.x) (after.gradient - before.gradient)).isNone

theorem Reaches.exists_offers {events : List (Event ℝ n)} {s t : State ℝ n}
    {before after : Event ℝ n} {alpha : ℝ} {stale : Bool} (reaches : Reaches f c x events s)
    (hbefore : before = s.event events.length alpha stale)
    (running : (iteration f c).converged s = false)
    (hadvance : s.advance f c (events.length + 1) = .ok (some (t, after))) :
    ∃ step, Offers f c x before after s step := by
  obtain ⟨step, progresses⟩ := reaches.exists_progresses hbefore running hadvance
  obtain ⟨step', gradient, hsearch, -, hgradient, hmove⟩ := State.exists_step_of_advance hadvance
  obtain rfl : step = step' := Except.ok.inj (progresses.search.symm.trans hsearch)
  rw [State.moveTo_eq] at hmove
  obtain ⟨rfl, rfl⟩ := Prod.mk.inj hmove
  subst hbefore
  exact ⟨step, progresses, rfl, hgradient, rfl⟩

theorem Offers.curved {before after : Event ℝ n} {s : State ℝ n} {step : LineSearch.Step ℝ n}
    {b : LineSearch.StrongWolfe ℝ} (offers : Offers f c x before after s step)
    (hlineSearch : c.lineSearch = .strongWolfe b) (satisfied : step.satisfied = true) :
    after.record.x - before.record.x = step.alpha * s.direction ∧
      (1 - b.c2) * step.alpha * |dot before.gradient s.direction| ≤
        dot (after.gradient - before.gradient) (after.record.x - before.record.x) := by
  have hpair : after.record.x - before.record.x = step.alpha * s.direction := by
    rw [offers.x]
    ext i hi
    simp
  have hsearch := offers.search
  rw [hlineSearch] at hsearch
  obtain ⟨g, hstored, hflat⟩ := LineSearch.StrongWolfe.exists_flat_of_search hsearch satisfied
  have hgradient : g = after.gradient := by
    have htaken := (LineSearch.search_sound hsearch).gradient g hstored
    have hpoint : s.ray.point step.alpha = after.record.x := by
      rw [offers.x, offers.reports.1]
      rfl
    rw [hpoint, offers.nextGradient] at htaken
    exact (Except.ok.inj htaken).symm
  have hslope : |dot after.gradient s.direction| ≤ b.c2 * |dot before.gradient s.direction| := by
    rw [← hgradient, offers.gradient]
    exact hflat
  have hdescent : |dot before.gradient s.direction| = -dot before.gradient s.direction := by
    rw [offers.gradient]
    exact abs_of_neg offers.descent
  refine ⟨hpair, ?_⟩
  rw [hpair, Exact.dot_hmul, Exact.sub_dot]
  have halpha : 0 < step.alpha := offers.stepLength ▸ offers.positive
  have hrise : (1 - b.c2) * |dot before.gradient s.direction| ≤
      dot after.gradient s.direction - dot before.gradient s.direction := by
    have hlow := neg_le_of_abs_le hslope
    linarith
  calc
    (1 - b.c2) * step.alpha * |dot before.gradient s.direction| =
        step.alpha * ((1 - b.c2) * |dot before.gradient s.direction|) := by ring
    _ ≤ _ := mul_le_mul_of_nonneg_left hrise halpha.le

theorem Offers.share_pos {before after : Event ℝ n} {s : State ℝ n} {step : LineSearch.Step ℝ n}
    {b : LineSearch.StrongWolfe ℝ} (offers : Offers f c x before after s step)
    (hlineSearch : c.lineSearch = .strongWolfe b) :
    0 < (1 - b.c2) * step.alpha * |dot before.gradient s.direction| := by
  obtain ⟨events, reaches, -⟩ := offers.reaches
  have hvalid := (Config.validate_eq_ok_iff.mp reaches.validate_eq_ok).2.2
  rw [hlineSearch] at hvalid
  have hc2 : b.c2 < 1 := by
    have hopen := (LineSearch.StrongWolfe.validate_eq_ok_iff.mp hvalid).2.1
    exact ((Exact.inOpenUnit_iff _).mp hopen).2
  have halpha : 0 < step.alpha := offers.stepLength ▸ offers.positive
  have hslope : 0 < |dot before.gradient s.direction| := by
    rw [offers.gradient]
    exact abs_pos.mpr offers.descent.ne
  exact mul_pos (mul_pos (sub_pos.mpr hc2) halpha) hslope

/-- Whenever its strong Wolfe search is satisfied, a run of limited-memory BFGS offers a pair along
the direction of the search, curved by a positive share of the slope. A report of a stale model
means that this share was no greater than the least curvature of a pair that is taken in. -/
theorem pairs_of_satisfied (f : Objective ℝ n ε) (x : Vector ℝ n) {c : Config ℝ} {memory : Nat}
    {b : LineSearch.StrongWolfe ℝ} (hmethod : c.method = .lbfgs memory)
    (hlineSearch : c.lineSearch = .strongWolfe b) (o : Observer σ (Event ℝ n)) (w : σ) :
    (Solver.shown (fun _ => minimize f x c) o w).IsChain fun before after =>
      ∃ s step, Offers f c x before after s step ∧
        (step.satisfied = true →
          let pair := (after.record.x - before.record.x, after.gradient - before.gradient)
          let share := (1 - b.c2) * step.alpha * |dot before.gradient s.direction|
          pair.1 = step.alpha * s.direction ∧ share ≤ dot pair.2 pair.1 ∧ 0 < share ∧
            (after.record.stale = true → share ≤ 1e-10)) := by
  refine (isChain_shown ?_ o w).1
  intro events s t before after alpha stale reaches hbefore running hadvance
  obtain ⟨step, offers⟩ := reaches.exists_offers hbefore running hadvance
  refine ⟨s, step, offers, fun satisfied => ?_⟩
  obtain ⟨hpair, hcurved⟩ := offers.curved hlineSearch satisfied
  refine ⟨hpair, hcurved, offers.share_pos hlineSearch, fun hstale => ?_⟩
  have hmemory : memory ≠ 0 := by
    rintro rfl
    exact (Config.validate_eq_ok_iff.mp reaches.validate_eq_ok).2.1 hmethod
  rw [offers.stale, (reaches.remembers hmethod).isNone_update_iff hmemory] at hstale
  exact hcurved.trans hstale

section Example

/-- A run of the parabola at its start. -/
noncomputable def atOne : State ℝ 1 where
  current := { x := .ofFn ![1], value := 1, gradient := .ofFn ![2.0] }
  model := .lbfgs (.empty 10)
  scaled := false

/-- The step to the vertex of the parabola. -/
noncomputable def toVertex : LineSearch.Step ℝ 1 where
  alpha := 0.5
  value := 0
  finite := true
  gradient := some (.ofFn ![0])
  satisfied := true
  evaluations := 1

theorem start_parabola : start parabola {} (.ofFn ![1]) = .ok atOne := by
  have he : parabola.evaluate (.ofFn ![1]) = .ok atOne.current := by
    refine Objective.evaluate_eq_ok_iff.mpr ⟨rfl, congrArg Except.ok ?_, congrArg Except.ok ?_⟩
    · simp [atOne, Vector.get_eq_getElem]
    · ext i hi
      interval_cases i
      norm_num [atOne, Vector.get_eq_getElem]
  have hfinite : (parabola.domain (.ofFn ![1]) && atOne.current.isFinite) = true := by
    rw [Evaluation.isFinite, Exact.allFinite]
    rfl
  exact start_eq_ok_iff.mpr ⟨Config.validate_of_gradientTol_pos (by norm_num), Exact.allFinite _, _,
    he, hfinite, rfl⟩

theorem slope_atOne : dot atOne.current.gradient (-atOne.current.gradient) = -4 := by
  rw [Exact.dot_eq_sum, Fin.sum_univ_one]
  norm_num [atOne, Vector.get_eq_getElem]

theorem direction_atOne : atOne.direction = -atOne.current.gradient := by
  have hmodel : atOne.model.direction atOne.current.gradient = -atOne.current.gradient := by
    ext i hi
    interval_cases i
    norm_num [atOne, Curvature.direction, Lbfgs.direction, Lbfgs.empty, Lbfgs.applyInverse,
      Lbfgs.scale]
  rw [State.direction, hmodel, ite_self]

theorem gradientNorm_atOne : atOne.current.gradientNorm = 2 := by
  have hsquare := Exact.norm_mul_norm atOne.current.gradient
  have hslope := slope_atOne
  rw [Exact.dot_neg] at hslope
  have hnonneg := Exact.norm_nonneg atOne.current.gradient
  rw [Evaluation.gradientNorm]
  nlinarith

theorem initialStep_atOne : atOne.initialStep = 0.5 := by
  rw [State.initialStep, if_neg (by simp [atOne]), gradientNorm_atOne, Exact.min_eq]
  norm_num

theorem point_atOne : atOne.ray.point 0.5 = .ofFn ![0] := by
  rw [LineSearch.Ray.point, State.ray, direction_atOne]
  ext i hi
  interval_cases i
  norm_num [atOne]

theorem trial_atOne : LineSearch.StrongWolfe.trial {} parabola atOne.ray 0
    { lo := 0.0, hi := none, alpha := 0.5 } = .ok toVertex := by
  have hvalue : parabola.value (.ofFn ![0]) = .ok 0 := by
    refine congrArg Except.ok ?_
    simp [Vector.get_eq_getElem]
  have hgradient : parabola.gradient (.ofFn ![0]) = .ok (.ofFn ![0]) := by
    refine congrArg Except.ok ?_
    ext i hi
    interval_cases i
    simp [Vector.get_eq_getElem]
  have hlow : LineSearch.StrongWolfe.tooHigh {} atOne.ray 0.5 0 = false := by
    have hslack := LineSearch.StrongWolfe.slack_nonneg atOne.ray
    have hdescent : atOne.ray.slope = -4 := by
      rw [LineSearch.Ray.slope, State.ray, direction_atOne, slope_atOne]
    refine decide_eq_false (not_lt.mpr ?_)
    rw [hdescent]
    norm_num [State.ray, atOne] at hslack ⊢
    linarith
  have hslope : dot (.ofFn ![0]) atOne.ray.direction = 0 := by
    simp [Exact.dot_eq_sum]
  have hflat : LineSearch.StrongWolfe.isFlat {} atOne.ray 0 = true := by
    refine decide_eq_true ?_
    change |0| ≤ 0.9 * |atOne.ray.slope|
    rw [abs_zero]
    positivity
  rw [LineSearch.StrongWolfe.trial, point_atOne, hvalue]
  dsimp only [bind, Except.bind]
  rw [hlow, hgradient]
  dsimp only [pure, Except.pure]
  rw [hslope, hflat]
  rfl

theorem search_atOne :
    ({} : Config ℝ).lineSearch.search parabola atOne.ray atOne.initialStep = .ok toVertex := by
  rw [initialStep_atOne]
  change LineSearch.StrongWolfe.search _ _ _ _ = _
  rw [LineSearch.StrongWolfe.search, LineSearch.StrongWolfe.trials_succ, trial_atOne]
  rfl

theorem shown_parabola : ∃ before after,
    Solver.shown (fun _ => minimize parabola (.ofFn ![1]) {}) .silent () = [before, after] ∧
      before.record.iteration = 0 := by
  have running : (iteration parabola {}).converged atOne = false := by
    refine decide_eq_false ?_
    rw [gradientNorm_atOne]
    norm_num
  obtain ⟨t, event, hadvance, hgradient⟩ : ∃ t event,
      atOne.advance parabola {} 1 = .ok (some (t, event)) ∧
        t.current.gradient = .ofFn ![0] := by
    rw [State.advance, search_atOne]
    exact ⟨_, _, rfl, congrArg Evaluation.gradient (State.current_moveTo ..)⟩
  have converged : (iteration parabola {}).converged t = true := by
    refine decide_eq_true ?_
    have hzero : (.ofFn ![0] : Vector ℝ 1) = zeros := by
      ext i hi
      simp [Exact.zero_eq]
    rw [Evaluation.gradientNorm, hgradient, hzero, Exact.norm_zeros]
    norm_num
  have hrun := (procedure parabola (.ofFn ![1]) {}).convergesAfter_one start_parabola rfl running
    (by decide) (Except.mapError_eq_ok_iff.mpr hadvance) converged
  have hshown := hrun.shown
  rw [procedure_run] at hshown
  exact ⟨_, event, hshown, rfl⟩

theorem pairs_of_satisfied_parabola : ∃ before after s step,
    Solver.shown (fun _ => minimize parabola (.ofFn ![1]) {}) .silent () = [before, after] ∧
      Offers parabola {} (.ofFn ![1]) before after s step ∧ step.satisfied = true ∧
      0 < dot (after.gradient - before.gradient) (after.record.x - before.record.x) := by
  obtain ⟨before, after, hshown, hfirst⟩ := shown_parabola
  have hchain := pairs_of_satisfied parabola (.ofFn ![1]) (c := {}) rfl rfl .silent ()
  rw [hshown, List.isChain_pair] at hchain
  obtain ⟨s, step, offers, hpair⟩ := hchain
  have hstart : s = atOne := by
    obtain ⟨events, ⟨first, hfirst', chain⟩, hlength⟩ := offers.reaches
    rw [hfirst, List.length_eq_zero_iff] at hlength
    subst hlength
    cases chain
    exact Except.ok.inj (hfirst'.symm.trans start_parabola)
  have satisfied : step.satisfied = true := by
    have hsearch := offers.search
    rw [hstart, search_atOne] at hsearch
    rw [← Except.ok.inj hsearch]
    rfl
  obtain ⟨-, hshare, hpos, -⟩ := hpair satisfied
  exact ⟨before, after, s, step, hshown, offers, satisfied, hpos.trans_le hshare⟩

end Example

end QuasiNewton

end LocalOptimization
