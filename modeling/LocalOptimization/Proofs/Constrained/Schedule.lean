import Mathlib
import LocalOptimization.Proofs.Constrained.Lagrangian
import LocalOptimization.Proofs.Constrained.Progress
import LocalOptimization.Proofs.Procedure.Status

/-!
# The schedule of the barrier method

The parameter of the barrier and the duality gap depend on the number of the outer iteration alone.
So the parameters of the method and the number of inequalities determine how long a run takes; its
inner runs only decide whether it has a result.
-/

namespace LocalOptimization.Constrained.Barrier

variable {K : Type} [Scalar K] {n n' : Nat} {ε ε' : Type}

/-- The parameter of the outer iteration `k`, which are numbered from 1. -/
def Config.schedule (config : Config K) (k : Nat) : K :=
  (· * config.growth)^[k - 1] config.initialT

/-- The duality gap of `m` inequalities in the outer iteration `k`. -/
def Config.gap (config : Config K) (m k : Nat) : K :=
  Scalar.ofNat m / config.schedule k

/-- The outer iterations in which the duality gap of `m` inequalities is below the tolerance. -/
def Config.met (config : Config K) (m : Nat) : Set Nat :=
  {k | 1 ≤ k ∧ k ≤ config.maxOuterIters ∧ config.gap m k < config.tolerance}

variable {config : Config K} {m : Nat}

@[simp]
theorem Config.schedule_one : config.schedule 1 = config.initialT :=
  rfl

@[simp]
theorem Config.schedule_succ (k : Nat) :
    config.schedule (k + 2) = config.schedule (k + 1) * config.growth :=
  Function.iterate_succ_apply' _ _ _

/-- The record shows the parameter and the duality gap of its outer iteration. -/
structure OnSchedule (config : Config K) (m : Nat) (r : Record K n) : Prop where
  parameter : r.parameter = config.schedule r.iteration
  measure : r.measure = .dualityGap (config.gap m r.iteration)

/-- The result comes from the first outer iteration that meets the tolerance, or from the last one
allowed, and all its records are on schedule. -/
structure Follows (config : Config K) (m : Nat) (sol : Solution K n) : Prop extends
    Tally Record.iteration 1 config.maxOuterIters sol.last.iteration sol.status sol.history where
  ending : (sol.status = .converged ∧ IsLeast (config.met m) sol.last.iteration) ∨
    (sol.status = .exhausted ∧ sol.last.iteration = config.maxOuterIters ∧ config.met m = ∅)
  last : OnSchedule config m sol.last
  records : ∀ r ∈ sol.history.toList, OnSchedule config m r

theorem Follows.eq_ending {sol : Solution K n} {sol' : Solution K n'}
    (follows : Follows config m sol) (follows' : Follows config m sol') :
    sol.status = sol'.status ∧ sol.last.iteration = sol'.last.iteration := by
  rcases follows.ending with ⟨hstatus, least⟩ | ⟨hstatus, hlast, hnone⟩ <;>
    rcases follows'.ending with ⟨hstatus', least'⟩ | ⟨hstatus', hlast', hnone'⟩
  · exact ⟨hstatus.trans hstatus'.symm, least.unique least'⟩
  · exact absurd least.1 (by simp [hnone'])
  · exact absurd least'.1 (by simp [hnone])
  · exact ⟨hstatus.trans hstatus'.symm, hlast.trans hlast'.symm⟩

variable {f : Objective K n ε} {c : ConstraintSet K n} {x : Vector K n}

/-- The state after `i` outer iterations, none of which but the last can have met the tolerance. -/
structure OnTrack (config : Config K) (m i : Nat) (s : Reduction.State K n) : Prop where
  iteration : s.last.iteration = i
  next : s.parameter = config.schedule (i + 1)
  last : 0 < i → OnSchedule config m s.last
  unmet : ∀ k ∈ config.met m, i ≤ k

theorem onTrack_of_start {s : Reduction.State K n}
    (h : (reduction f c config).start f x = .ok s) : OnTrack config m 0 s := by
  obtain ⟨-, objective, -, -, rfl⟩ := Reduction.start_eq_ok_iff.mp h
  exact ⟨rfl, rfl, fun h => absurd h (Nat.lt_irrefl 0), fun k _ => Nat.zero_le k⟩

/-- An outer iteration keeps to the schedule, however its inner run ends. -/
theorem OnTrack.advance {i : Nat} {s t : Reduction.State K n} {inner : QuasiNewton.Solution K n}
    (track : OnTrack config c.inequalities.length i s)
    (running : ((reduction f c config).iteration f).converged s = false)
    (advances : (reduction f c config).Advances f (i + 1) s t inner) :
    OnTrack config c.inequalities.length (i + 1) t := by
  refine ⟨advances.iteration, ?_, fun _ => ⟨?_, ?_⟩, ?_⟩
  · rw [advances.parameter, Config.schedule_succ, ← track.next]
    rfl
  · rw [advances.usedParameter, advances.iteration, track.next]
  · rw [advances.measure, advances.iteration, track.next]
    rfl
  · intro k hk
    refine lt_of_le_of_ne (track.unmet k hk) ?_
    rintro rfl
    have hmeasure := (track.last hk.1).measure
    rw [track.iteration] at hmeasure
    have hmet : s.last.measure.value < config.tolerance := by
      rw [hmeasure]
      exact hk.2.2
    have hpositive : 0 < s.last.iteration := track.iteration.symm ▸ hk.1
    simp [Reduction.iteration, reduction, hpositive, hmet] at running

theorem onTrack_of_chain {events : List (Record K n)} {s t : Reduction.State K n}
    (hstart : (reduction f c config).start f x = .ok s)
    (chain : ((reduction f c config).iteration f).Chain 0 s events t) :
    OnTrack config c.inequalities.length events.length t ∧
      ∀ event ∈ events, OnSchedule config c.inequalities.length event := by
  have htrack := chain.invariant_at (P := OnTrack config c.inequalities.length)
    (Q := OnSchedule config c.inequalities.length) ?_ (onTrack_of_start hstart)
  · rwa [Nat.zero_add] at htrack
  · intro i s t event track running hadvance
    obtain ⟨rfl, inner, advances⟩ := Reduction.advance_eq_some_iff.mp hadvance
    have htrack := track.advance running advances
    exact ⟨htrack, htrack.last (Nat.succ_pos i)⟩

theorem follows_of_minimizeUnobserved {sol : Solution K n}
    (h : minimizeUnobserved f c x config = .ok sol) :
    Follows config c.inequalities.length sol := by
  have accounts := accounts_of_minimize h
  obtain ⟨valid, equalities, interior⟩ := valid_of_minimize h
  rw [minimizeUnobserved, minimize_of_valid valid equalities interior] at h
  have hstopped := Reduction.status_ne_stopped (fun _ _ => rfl) h
  obtain ⟨first, events, ending, hstart, outcome, rfl, -⟩ := Reduction.exists_outcome h
  obtain ⟨track, hevents⟩ := onTrack_of_chain hstart outcome.chain
  have hpositive : 0 < events.length :=
    List.length_pos_of_ne_nil (Reduction.events_ne_nil hstart outcome valid.allowed)
  have hlast := track.last hpositive
  have hmet : ending.state.last.measure.value < config.tolerance ↔
      config.gap c.inequalities.length events.length < config.tolerance := by
    rw [hlast.measure, track.iteration]
    rfl
  have hiteration : ((reduction f c config).solution ending).last.iteration = events.length :=
    track.iteration
  refine { accounts.toTally with
    ending := ?_, last := hlast, records := fun r hr =>
      hevents r (Reduction.mem_events_of_mem_history outcome hr) }
  rw [hiteration]
  cases hstatus : ending.status with
  | converged =>
      have hgap := hmet.mp (accounts.converged.mp hstatus)
      exact .inl ⟨hstatus, ⟨hpositive, outcome.withinBudget, hgap⟩, track.unmet⟩
  | exhausted =>
      refine .inr ⟨hstatus, (outcome.exhausted hstatus).2, Set.eq_empty_of_forall_notMem ?_⟩
      intro k hk
      have hk' : k = events.length :=
        le_antisymm ((outcome.exhausted hstatus).2.symm ▸ hk.2.1) (track.unmet k hk)
      have hconverged := accounts.converged.mpr (hmet.mpr (hk' ▸ hk.2.2))
      cases hstatus.symm.trans hconverged
  | gaveUp => exact absurd (outcome.gaveUp hstatus) Reduction.advance_ne_none
  | stopped => exact absurd hstatus hstopped

/-- Two results for the same parameters and the same number of inequalities follow one schedule,
whatever their objectives, constraints and starts: they end in the same outer iteration for the same
reason, with the same parameter and the same duality gap. -/
theorem same_ending_of_minimizeUnobserved {sol : Solution K n} {f' : Objective K n' ε'}
    {c' : ConstraintSet K n'} {x' : Vector K n'} {sol' : Solution K n'}
    (h : minimizeUnobserved f c x config = .ok sol)
    (h' : minimizeUnobserved f' c' x' config = .ok sol')
    (same : c'.inequalities.length = c.inequalities.length) :
    Follows config c.inequalities.length sol ∧ Follows config c.inequalities.length sol' ∧
      sol.status = sol'.status ∧ sol.last.iteration = sol'.last.iteration ∧
      sol.last.parameter = sol'.last.parameter ∧ sol.last.measure = sol'.last.measure := by
  have follows := follows_of_minimizeUnobserved h
  have follows' := follows_of_minimizeUnobserved h'
  rw [same] at follows'
  obtain ⟨hstatus, hiteration⟩ := follows.eq_ending follows'
  refine ⟨follows, follows', hstatus, hiteration, ?_, ?_⟩
  · rw [follows.last.parameter, follows'.last.parameter, hiteration]
  · rw [follows.last.measure, follows'.last.measure, hiteration]

section Exact

variable {f : Objective ℝ n ε} {c : ConstraintSet ℝ n} {x : Vector ℝ n} {config : Config ℝ}

theorem innerStarts_of_interior (total : f.Total) (everywhere : ∀ y, f.domain y = true)
    (valid : config.Valid) {s : Reduction.State ℝ n} (interior : c.interior s.last.x = true) :
    (reduction f c config).InnerStarts s := by
  refine ⟨?_, Exact.allFinite _, ?_⟩
  · have htolerance : 0 < config.inner.gradientTol := by
      have hpositive := (QuasiNewton.Config.validate_eq_ok_iff.mp valid.innerValid).1
      exact (Exact.isPositive_iff _).mp hpositive
    refine (QuasiNewton.Config.validate_gradientTol valid.innerValid _).trans (if_pos ?_)
    have hscaled : ((reduction f c config).innerConfig s.parameter).gradientTol =
        config.inner.gradientTol * max s.parameter 1 := gradientTol_innerConfig
    rw [Exact.isPositive_iff]
    refine lt_of_lt_of_eq (mul_pos htolerance ?_) hscaled.symm
    exact zero_lt_one.trans_le (le_max_right _ _)
  · obtain ⟨e, he⟩ := ((total_reduction total config).surrogate s.parameter
      s.multipliers).exists_evaluate s.last.x
    refine ⟨e, he, ?_⟩
    rw [Evaluation.isFinite, Exact.allFinite, Exact.isFinite]
    simp [reduction, surrogate, interior, everywhere]

theorem exists_minimizeUnobserved_of_interior (total : f.Total)
    (everywhere : ∀ y, f.domain y = true) (valid : config.Valid) (equalities : c.equalities = [])
    (interior : c.interior x = true) : ∃ sol, minimizeUnobserved f c x config = .ok sol := by
  rw [minimizeUnobserved, minimize_of_valid valid equalities interior]
  obtain ⟨v, hv⟩ := total.value x
  have hstart := Reduction.start_eq_ok_iff (r := reduction f c config) |>.mpr
    ⟨Exact.allFinite x, v, hv, by rw [Objective.isFiniteAt, everywhere]; rfl, rfl⟩
  cases hresult : ((reduction f c config).minimize f x config.maxOuterIters config.historyLimit
      .silent ()).1 with
  | ok sol => exact ⟨sol, rfl⟩
  | error e =>
      obtain ⟨events, t, continues, hfail⟩ := (Reduction.minimize_eq_error_iff hstart).mp hresult
      have hinterior : c.interior t.last.x = true := by
        refine (Reduction.chain_invariant (P := fun s => c.interior s.last.x = true)
          (Q := fun _ => True) ?_ continues.chain interior).1
        intro i s t inner _ advances
        exact ⟨interior_of_isFiniteAt advances.evaluates.finite, trivial⟩
      obtain ⟨q, hq⟩ := Reduction.innerStarts_iff.mp
        (innerStarts_of_interior total everywhere valid hinterior)
      obtain ⟨cause, -, hcause⟩ := (total_reduction total config).advance_eq_error_iff.mp hfail
      cases hq.symm.trans hcause

noncomputable def bowl : Objective ℝ 1 Empty :=
  .univariate (fun x => x * x) (fun x => x + x)

noncomputable def aboveZero : ConstraintSet ℝ 1 where
  inequalities := [.univariate (fun x => -x) (fun _ => -1)]

theorem schedule_default (k : Nat) : ({} : Config ℝ).schedule (k + 1) = 10 ^ k := by
  induction k with
  | zero => norm_num
  | succ k ih =>
      rw [Config.schedule_succ, ih, pow_succ]
      norm_num

theorem isLeast_met_default : IsLeast (({} : Config ℝ).met 1) 8 := by
  have hgap (k : Nat) : ({} : Config ℝ).gap 1 (k + 1) = 1 / 10 ^ k := by
    rw [Config.gap, schedule_default]
    exact congrArg (· / (10 : ℝ) ^ k) Nat.cast_one
  constructor
  · refine ⟨by decide, by decide, ?_⟩
    rw [hgap]
    norm_num
  · rintro k ⟨hpositive, -, hmet⟩
    obtain ⟨k, rfl⟩ := Nat.exists_eq_add_of_le' hpositive
    rw [hgap] at hmet
    by_contra hearly
    have hpow : (10 : ℝ) ^ k ≤ 10 ^ 6 := pow_le_pow_right₀ (by norm_num) (by omega)
    have hlarge : (1 : ℝ) / 10 ^ 6 ≤ 1 / 10 ^ k := one_div_le_one_div_of_le (by positivity) hpow
    norm_num at hmet hlarge
    linarith

theorem same_ending_of_line_and_bowl : ∃ sol sol',
    minimizeUnobserved line belowOne #v[0] {} = .ok sol ∧
    minimizeUnobserved bowl aboveZero #v[3] {} = .ok sol' ∧
      sol.status = .converged ∧ sol.last.iteration = 8 ∧ sol.last.parameter = 10 ^ 7 ∧
      sol'.status = .converged ∧ sol'.last.iteration = 8 ∧ sol'.last.parameter = 10 ^ 7 := by
  have hvalid : ({} : Config ℝ).Valid :=
    accepted_default (by rintro cap ⟨⟩) (by norm_num) (by decide)
  obtain ⟨sol, h⟩ := exists_minimizeUnobserved_of_interior (f := line) (c := belowOne) (x := #v[0])
    (Objective.total_univariate _ _) (fun _ => rfl) hvalid rfl
    (by norm_num [ConstraintSet.interior_iff, belowOne, Constraint.univariate])
  obtain ⟨sol', h'⟩ := exists_minimizeUnobserved_of_interior (f := bowl) (c := aboveZero)
    (x := #v[3]) (Objective.total_univariate _ _) (fun _ => rfl) hvalid rfl
    (by norm_num [ConstraintSet.interior_iff, aboveZero, Constraint.univariate])
  obtain ⟨follows, -, hstatus, hiteration, hparameter, -⟩ :=
    same_ending_of_minimizeUnobserved h h' rfl
  rcases follows.ending with ⟨converged, least⟩ | ⟨-, -, hnone⟩
  · have height : sol.last.iteration = 8 := least.unique isLeast_met_default
    have hlast : sol.last.parameter = 10 ^ 7 := by
      rw [follows.last.parameter, height]
      exact schedule_default 7
    exact ⟨sol, sol', h, h', converged, height, hlast, hstatus ▸ converged, hiteration ▸ height,
      hparameter ▸ hlast⟩
  · exact absurd isLeast_met_default.1 (by simp [show ({} : Config ℝ).met 1 = ∅ from hnone])

end Exact

end LocalOptimization.Constrained.Barrier
