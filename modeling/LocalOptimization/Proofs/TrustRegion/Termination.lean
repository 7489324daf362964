import Mathlib
import LocalOptimization.Proofs.Procedure.Progress
import LocalOptimization.Proofs.TrustRegion.Decrease
import LocalOptimization.Proofs.TrustRegion.Transition

/-!
# Runs end on their own

Every iteration either lowers the objective by a fixed amount, while the radius at most doubles, or
quarters the radius, while the objective does not increase. An objective that is bounded below does
not allow the one too often, and a radius that stays above a bound does not allow the other.
-/

namespace LocalOptimization.TrustRegion

variable {n : Nat} {ε : Type} {f : Objective ℝ n ε} {c : Config ℝ} {x : Vector ℝ n}
variable {low beta : ℝ}

/-- The objective never fails, is bounded below, and provides symmetric Hessians with curvature at
most `beta`. -/
structure Bounded (f : Objective ℝ n ε) (low beta : ℝ) : Prop where
  total : f.Total
  low_le : ∀ y v, f.value y = .ok v → low ≤ v
  hessian : ∀ y, ∃ h, f.hessian y = .ok (some h) ∧ Exact.IsSymmetric h ∧
    ∀ v, quadraticForm h v ≤ beta * dot v v

/-- Parameters under which runs end, for objectives with curvature at most `beta`. -/
structure Config.Ends (c : Config ℝ) (beta : ℝ) : Prop where
  valid : c.Valid
  minRadius_pos : 0 < c.minRadius
  beta_pos : 0 < beta
  subproblem : c.subproblem = .cauchy ∨ c.subproblem = .steihaugCg

section Potential

/-- An iteration whose ratio is not small lowers the objective by at least this. -/
noncomputable def leastDecrease (beta : ℝ) (c : Config ℝ) : ℝ :=
  0.125 * c.gradientTol * min c.minRadius (c.gradientTol / beta)

/-- A bound on the number of iterations from a state with this value and radius. -/
noncomputable def potential (low beta : ℝ) (c : Config ℝ) (value radius : ℝ) : ℝ :=
  1.5 * ((value - low) / leastDecrease beta c) + Real.logb 4.0 (radius / c.minRadius) + 1

noncomputable def iterationBound (value low beta : ℝ) (c : Config ℝ) : Nat :=
  ⌊potential low beta c value c.initialRadius⌋₊ + 1

theorem Config.Ends.gradientTol_pos (ends : c.Ends beta) : 0 < c.gradientTol :=
  (Exact.isPositive_iff c.gradientTol).mp ends.valid.gradientTol

theorem leastDecrease_pos (ends : c.Ends beta) : 0 < leastDecrease beta c := by
  have htol := ends.gradientTol_pos
  have hcurved : 0 < c.gradientTol / beta := div_pos htol ends.beta_pos
  have hleast : 0 < min c.minRadius (c.gradientTol / beta) := lt_min ends.minRadius_pos hcurved
  rw [leastDecrease]
  positivity

theorem logb_four_two : Real.logb 4 2 = 1 / 2 := by
  have hsquare : Real.logb 4 (2 * 2) = Real.logb 4 2 + Real.logb 4 2 :=
    Real.logb_mul (by norm_num) (by norm_num)
  have hfour : Real.logb 4 (2 * 2) = 1 := by
    norm_num
  linarith

variable {value value' radius radius' : ℝ}

theorem potential_eq :
    potential low beta c value radius =
      3 / 2 * ((value - low) / leastDecrease beta c) + Real.logb 4 (radius / c.minRadius) + 1 := by
  norm_num [potential]

theorem potential_of_shrinks (ends : c.Ends beta) (hradius : 0 < radius)
    (hvalue : value' ≤ value) :
    potential low beta c value' (radius * 0.25) + 1 ≤ potential low beta c value radius := by
  have hunit := leastDecrease_pos ends
  have hmin := ends.minRadius_pos
  have hlog : Real.logb 4 (radius * 0.25 / c.minRadius) =
      Real.logb 4 (radius / c.minRadius) - 1 := by
    have hquarter : radius * 0.25 / c.minRadius = radius / c.minRadius / 4 := by ring
    rw [hquarter, Real.logb_div (by positivity) (by norm_num), Real.logb_self_eq_one (by norm_num)]
  have hdecrease : (value' - low) / leastDecrease beta c ≤ (value - low) / leastDecrease beta c :=
    div_le_div_of_nonneg_right (sub_le_sub_right hvalue low) (le_of_lt hunit)
  rw [potential_eq, potential_eq, hlog]
  linarith

theorem potential_of_decreases (ends : c.Ends beta) (hradius : 0 < radius')
    (hdouble : radius' ≤ 2 * radius) (hvalue : value' + leastDecrease beta c ≤ value) :
    potential low beta c value' radius' + 1 ≤ potential low beta c value radius := by
  have hunit := leastDecrease_pos ends
  have hmin := ends.minRadius_pos
  have hpos : 0 < radius := by linarith
  have hlog : Real.logb 4 (radius' / c.minRadius) ≤ Real.logb 4 (radius / c.minRadius) + 1 / 2 := by
    rw [← logb_four_two, ← Real.logb_mul (by positivity) (by norm_num)]
    apply Real.logb_le_logb_of_le (by norm_num) (by positivity)
    rw [div_mul_eq_mul_div, mul_comm radius]
    exact div_le_div_of_nonneg_right hdouble (le_of_lt hmin)
  have hdecrease : (value' - low) / leastDecrease beta c + 1 ≤
      (value - low) / leastDecrease beta c := by
    rw [← div_self (ne_of_gt hunit), ← add_div]
    exact div_le_div_of_nonneg_right (by linarith) (le_of_lt hunit)
  rw [potential_eq, potential_eq]
  linarith

theorem potential_nonneg (ends : c.Ends beta) (hlow : low ≤ value)
    (hradius : c.minRadius / 4 ≤ radius) : 0 ≤ potential low beta c value radius := by
  have hunit := leastDecrease_pos ends
  have hmin := ends.minRadius_pos
  have hlog : -1 ≤ Real.logb 4 (radius / c.minRadius) := by
    have hquarter : Real.logb 4 (1 / 4) = -1 := by
      rw [one_div, Real.logb_inv, Real.logb_self_eq_one (by norm_num)]
    rw [← hquarter]
    apply Real.logb_le_logb_of_le (by norm_num) (by norm_num)
    rw [le_div_iff₀ hmin]
    linarith
  have hgap : 0 ≤ (value - low) / leastDecrease beta c :=
    div_nonneg (sub_nonneg.mpr hlow) (le_of_lt hunit)
  rw [potential_eq]
  linarith

end Potential

section Step

/-- What a run keeps of its state: an evaluation of the objective, a Hessian within the bound and a
radius that is at most one quarter away from collapse. -/
structure State.Tame (f : Objective ℝ n ε) (c : Config ℝ) (beta : ℝ) (s : State ℝ n) : Prop where
  evaluates : f.Evaluates s.current
  symmetric : Exact.IsSymmetric s.model.hessian
  curves : s.model.CurvesAtMost beta
  radius : c.minRadius / 4 ≤ s.radius

variable {s t : State ℝ n} {o : Outcome ℝ n}

theorem Bounded.of_source (bounded : Bounded f low beta) {source : HessianSource ℝ n}
    {y : Vector ℝ n} {h : Matrix ℝ n} (hsource : source.hessian f y = .ok h) :
    Exact.IsSymmetric h ∧ ∀ v, quadraticForm h v ≤ beta * dot v v := by
  obtain ⟨h', provided, hbound⟩ := bounded.hessian y
  rw [HessianSource.hessian_of_provided provided] at hsource
  cases hsource
  exact hbound

theorem sufficientDecrease_le_solve {m : Model ℝ n} {radius : ℝ} {p : Subproblem}
    (hp : p = .cauchy ∨ p = .steihaugCg) (symmetric : Exact.IsSymmetric m.hessian)
    (curves : m.CurvesAtMost beta) (hbeta : 0 < beta) (hfree : m.isStuck radius = false) :
    m.sufficientDecrease radius beta ≤ m.predictedReduction (p.solve m radius).p := by
  rcases hp with rfl | rfl
  · exact sufficientDecrease_le_cauchyPoint symmetric curves hbeta hfree
  · exact sufficientDecrease_le_steihaugCg symmetric curves hbeta hfree

namespace State.Advances

theorem least_le_predicted (advances : s.Advances f c t o) (ends : c.Ends beta)
    (tame : s.Tame f c beta) (running : ¬ s.current.gradientNorm < c.gradientTol) :
    4 * leastDecrease beta c ≤ o.predicted := by
  obtain ⟨htrial, -, -, hpredicted, -⟩ := tryStep_eq_ok_iff.mp advances.tried
  have htol := ends.gradientTol_pos
  have hmin := ends.minRadius_pos
  have hbeta := ends.beta_pos
  have hgradient : c.gradientTol ≤ norm s.model.gradient := not_lt.mp running
  have hradius : c.minRadius ≤ s.radius := not_lt.mp advances.large
  have hfree : s.model.isStuck s.radius = false :=
    Model.isStuck_eq_false_iff.mpr ⟨htol.trans_le hgradient, hmin.trans_le hradius⟩
  have hmono : min c.minRadius (c.gradientTol / beta) ≤
      min s.radius (norm s.model.gradient / beta) :=
    min_le_min hradius (div_le_div_of_nonneg_right hgradient (le_of_lt hbeta))
  have hleast : 0 ≤ min c.minRadius (c.gradientTol / beta) :=
    le_min (le_of_lt hmin) (by positivity)
  calc
    4 * leastDecrease beta c
        = 0.5 * c.gradientTol * min c.minRadius (c.gradientTol / beta) := by
          rw [leastDecrease]
          ring
    _ ≤ 0.5 * norm s.model.gradient * min s.radius (norm s.model.gradient / beta) :=
          mul_le_mul (by linarith) hmono hleast (by linarith)
    _ = s.model.sufficientDecrease s.radius beta := rfl
    _ ≤ s.model.predictedReduction (c.subproblem.solve s.model s.radius).p :=
          sufficientDecrease_le_solve ends.subproblem tame.symmetric tame.curves hbeta hfree
    _ = o.predicted := by rw [hpredicted, htrial]

theorem value_le (advances : s.Advances f c t o) (valid : c.Valid) :
    t.current.value ≤ s.current.value := by
  by_cases h : c.eta < o.ratio
  · have accepted :=
      advances.accepted valid s.startEvent_reportsOn h (Eq.refl (t.event 1 o true false))
    exact le_of_lt accepted.decreases
  · rw [(advances.kept h).1]

theorem value_add_le (advances : s.Advances f c t o) (valid : c.Valid) (h : ¬ o.ratio < 0.25) :
    t.current.value + o.predicted / 4 ≤ s.current.value := by
  obtain ⟨-, -, hactual, -, hratio⟩ := tryStep_eq_ok_iff.mp advances.tried
  have hquarter : (0.25 : ℝ) ≤ o.ratio := not_lt.mp h
  have heta : c.eta < o.ratio := valid.eta_lt.trans_le hquarter
  obtain ⟨hfinite, hpredicted, -⟩ := of_lt_reductionRatio valid.eta_nonneg (hratio ▸ heta)
  have hnonpos : ¬ o.predicted ≤ 0.0 := not_le.mpr hpredicted
  rw [Exact.zero_eq] at hpredicted
  rw [hfinite, reductionRatio_of_not_nonpos hnonpos] at hratio
  rw [hratio, le_div_iff₀ hpredicted, hactual, ← (advances.moved heta).2] at hquarter
  linarith

theorem radius_bounds (advances : s.Advances f c t o) (ends : c.Ends beta)
    (h : ¬ o.ratio < 0.25) : c.minRadius ≤ t.radius ∧ t.radius ≤ 2 * s.radius := by
  have hmin := ends.minRadius_pos
  have hradius : c.minRadius ≤ s.radius := not_lt.mp advances.large
  have hmax : c.minRadius ≤ c.maxRadius :=
    (le_of_lt ends.valid.minRadius_lt).trans ends.valid.initialRadius_le
  rw [advances.radius]
  by_cases hgrows : 0.75 < o.ratio ∧ o.trial.onBoundary = true
  · rw [nextRadius_of_grows h hgrows, Exact.min_eq, Exact.two_eq]
    exact ⟨le_min (by linarith) hmax, min_le_left _ _⟩
  · rw [nextRadius_of_keeps h hgrows]
    exact ⟨hradius, by linarith⟩

theorem tame (advances : s.Advances f c t o) (ends : c.Ends beta) (bounded : Bounded f low beta)
    (hs : s.Tame f c beta) : t.Tame f c beta := by
  have hradius : c.minRadius / 4 ≤ t.radius := by
    by_cases hratio : o.ratio < 0.25
    · have hlarge : c.minRadius ≤ s.radius := not_lt.mp advances.large
      rw [advances.radius, nextRadius_of_shrinks hratio]
      linarith
    · have hmin := ends.minRadius_pos
      linarith [(advances.radius_bounds ends hratio).1]
  by_cases h : c.eta < o.ratio
  · have accepted :=
      advances.accepted ends.valid s.startEvent_reportsOn h (Eq.refl (t.event 1 o true false))
    obtain ⟨hsymmetric, hcurves⟩ := bounded.of_source (advances.hessian h)
    exact ⟨⟨accepted.value, accepted.gradient, accepted.finite⟩, hsymmetric, hcurves, hradius⟩
  · obtain ⟨hcurrent, hhessian, -⟩ := advances.kept h
    have hmodel : t.model = s.model := by rw [model, hcurrent, hhessian, model]
    exact ⟨hcurrent ▸ hs.evaluates, hmodel ▸ hs.symmetric, hmodel ▸ hs.curves, hradius⟩

theorem potential_add_one_le (advances : s.Advances f c t o) (ends : c.Ends beta)
    (tame : s.Tame f c beta) (running : ¬ s.current.gradientNorm < c.gradientTol) :
    potential low beta c t.current.value t.radius + 1 ≤
      potential low beta c s.current.value s.radius := by
  have hmin := ends.minRadius_pos
  by_cases hratio : o.ratio < 0.25
  · have hradius : 0 < s.radius := hmin.trans_le (not_lt.mp advances.large)
    rw [advances.radius, nextRadius_of_shrinks hratio]
    exact potential_of_shrinks ends hradius (advances.value_le ends.valid)
  · obtain ⟨hleast, hdouble⟩ := advances.radius_bounds ends hratio
    have hpredicted := advances.least_le_predicted ends tame running
    have hvalue := advances.value_add_le ends.valid hratio
    exact potential_of_decreases ends (hmin.trans_le hleast) hdouble (by linarith)

end State.Advances

theorem State.exists_advance (bounded : Bounded f low beta) (i : Nat) (s : State ℝ n) :
    ∃ next, s.advance f c i = .ok next := by
  rw [advance]
  split
  · exact ⟨none, rfl⟩
  · obtain ⟨value, hvalue⟩ :=
      bounded.total.value (s.current.x + (c.subproblem.solve s.model s.radius).p)
    obtain ⟨gradient, hgradient⟩ :=
      bounded.total.gradient (s.current.x + (c.subproblem.solve s.model s.radius).p)
    obtain ⟨h, provided, -⟩ :=
      bounded.hessian (s.current.x + (c.subproblem.solve s.model s.radius).p)
    rw [tryStep, hvalue]
    dsimp only [bind, Except.bind, pure, Except.pure]
    split
    · rw [accept]
      dsimp only [bind, Except.bind, pure, Except.pure]
      rw [hgradient]
      dsimp only
      rw [HessianSource.hessian_of_provided provided]
      exact ⟨_, rfl⟩
    · exact ⟨_, rfl⟩

end Step

section Run

theorem exists_start (bounded : Bounded f low beta) (valid : c.Valid)
    (hdomain : f.domain x = true) :
    ∃ s, start f c x = .ok s ∧ s.current.x = x ∧ s.radius = c.initialRadius ∧
      s.Tame f c beta := by
  obtain ⟨e, hevaluate⟩ := bounded.total.exists_evaluate x
  obtain ⟨h, provided, hbound⟩ := bounded.hessian x
  obtain ⟨rfl, hvalue, hgradient⟩ := Objective.evaluate_eq_ok_iff.mp hevaluate
  have hfinite : (f.domain e.x && e.isFinite && h.all allFinite) = true := by
    have hrows : h.all allFinite = true :=
      Vector.all_eq_true.mpr fun i hi => Exact.allFinite h[i]
    rw [hdomain, Evaluation.isFinite, Exact.isFinite, Exact.allFinite, hrows]
    rfl
  refine ⟨_, start_eq_ok_iff.mpr ⟨valid, Exact.allFinite e.x, e, h, hevaluate,
    HessianSource.hessian_of_provided provided, hfinite, rfl⟩, rfl, rfl, ?_⟩
  have hradius : c.minRadius / 4 ≤ c.initialRadius := by
    have hnonneg := valid.minRadius_nonneg
    rw [Exact.zero_eq] at hnonneg
    linarith [valid.minRadius_lt]
  exact ⟨⟨hvalue, hgradient, Bool.and_eq_true_iff.mpr ⟨hdomain, rfl⟩⟩, hbound.1, hbound.2, hradius⟩

theorem length_le_of_chain {s t : State ℝ n} {events : List (Event ℝ n)} (ends : c.Ends beta)
    (bounded : Bounded f low beta) (tame : s.Tame f c beta)
    (chain : (iteration f c).Chain 0 s events t) :
    events.length ≤ potential low beta c s.current.value s.radius := by
  have step : ∀ i s t event, State.Tame f c beta s → (iteration f c).converged s = false →
      (iteration f c).advance i s = .ok (some (t, event)) →
      t.Tame f c beta ∧ potential low beta c t.current.value t.radius + 1 ≤
        potential low beta c s.current.value s.radius := by
    intro i s t event hs running hadvance
    obtain ⟨o, stale, advances, -, -⟩ :=
      State.advances_of_advance (Except.mapError_eq_ok_iff.mp hadvance)
    exact ⟨advances.tame ends bounded hs,
      advances.potential_add_one_le ends hs (of_decide_eq_false running)⟩
  obtain ⟨ht, hlength⟩ := chain.potential_add_length_le
    (V := fun s => potential low beta c s.current.value s.radius) step tame
  have hnonneg := potential_nonneg ends (bounded.low_le _ _ ht.evaluates.value) ht.radius
  linarith

theorem exists_ending (bounded : Bounded f low beta) {s : State ℝ n}
    (hstart : start f c x = .ok s) :
    ∃ p e, p.state = s ∧ p.iterations = 0 ∧
      ((iteration f c).continueFor .silent c.maxIters p ()).1 = .ok e ∧
      minimizeUnobserved f x c = .ok (solution c e) := by
  let p : Progress (State ℝ n) (Record ℝ n) := {
    state := s
    iterations := 0
    history := (History.empty c.historyLimit).push s.startEvent.record }
  have hrun : minimizeUnobserved f x c =
      ((iteration f c).continueFor .silent c.maxIters p ()).1.map (solution c) := by
    rw [minimizeUnobserved, minimize_of_start hstart]
    rfl
  have total (i : Nat) (s : State ℝ n) : ∃ next, (iteration f c).advance i s = .ok next := by
    obtain ⟨next, hnext⟩ := State.exists_advance bounded i s
    exact ⟨next, Except.mapError_eq_ok_iff.mpr hnext⟩
  obtain ⟨e, hending⟩ := Iteration.exists_ending_of_total total .silent c.maxIters p ()
  exact ⟨p, e, rfl, rfl, hending, by rw [hrun, hending]; rfl⟩

/-- With an objective that is bounded below and whose curvature is bounded, a run converges or gives
up before its budget is spent, once the budget is large enough for the value at the start, the two
bounds and the parameters. -/
theorem ends_within_iterationBound (bounded : Bounded f low beta) (hbeta : 0 < beta)
    (hdomain : f.domain x = true) {value : ℝ} (hvalue : f.value x = .ok value)
    (hvalid : c.validate = .ok ()) (hmin : 0 < c.minRadius)
    (hp : c.subproblem = .cauchy ∨ c.subproblem = .steihaugCg) {budget : Nat}
    (hbudget : iterationBound value low beta c ≤ budget) :
    ∃ sol, minimizeUnobserved f x { c with maxIters := budget } = .ok sol ∧
      (sol.status = .converged ∨ sol.status = .gaveUp) := by
  have ends : Config.Ends { c with maxIters := budget } beta :=
    ⟨Config.validate_eq_ok_iff.mp hvalid, hmin, hbeta, hp⟩
  obtain ⟨s, hstart, hx, hradius, tame⟩ := exists_start bounded ends.valid hdomain
  obtain ⟨p, e, rfl, hiterations, hending, hrun⟩ := exists_ending bounded hstart
  refine ⟨_, hrun, ?_⟩
  have hcurrent : p.state.current.value = value := by
    have heval := tame.evaluates.value
    rw [hx, hvalue, Except.ok.injEq] at heval
    exact heval.symm
  obtain ⟨events, outcome, -⟩ := Iteration.exists_outcome (Prod.ext hending rfl)
  have hlength := length_le_of_chain ends bounded tame (hiterations ▸ outcome.chain)
  rw [hcurrent, hradius] at hlength
  have hfloor : events.length < budget := by
    refine lt_of_lt_of_le (Nat.lt_succ_of_le ?_) hbudget
    exact Nat.le_floor hlength
  cases hstatus : e.status with
  | converged => exact .inl hstatus
  | gaveUp => exact .inr hstatus
  | exhausted => exact absurd (outcome.exhausted hstatus).2 (ne_of_lt hfloor)
  | stopped => exact absurd hstatus (Iteration.status_ne_stopped (fun _ _ => rfl) hending)

/-- The function `½·x²`. -/
noncomputable def bowl : Objective ℝ 1 Empty where
  value x := .ok (0.5 * dot x x)
  gradient x := .ok x
  hessian _ := .ok (some identity)

theorem bounded_bowl : Bounded bowl 0 1 where
  total := ⟨fun _ => ⟨_, rfl⟩, fun _ => ⟨_, rfl⟩⟩
  low_le y v h := by
    cases h
    exact mul_nonneg (by norm_num) (Exact.dot_self_nonneg y)
  hessian _ := by
    refine ⟨_, rfl, ?_, ?_⟩
    · intro i j
      rw [Subsingleton.elim i j]
    · intro v
      rw [quadraticForm, Exact.identity_mulVec, one_mul]

theorem ends_within_iterationBound_bowl :
    ∃ sol, minimizeUnobserved bowl #v[1]
        { subproblem := .cauchy
          maxIters := iterationBound (1 / 2) 0 1 { subproblem := .cauchy } } = .ok sol ∧
      (sol.status = .converged ∨ sol.status = .gaveUp) := by
  have hvalid : Config.validate (K := ℝ) { subproblem := .cauchy } = .ok () := by
    rw [Config.validate_eq_ok_iff]
    constructor <;> simp only [Exact.isPositive_iff, Exact.isFinite] <;> norm_num
  have hvalue : bowl.value #v[1] = .ok (1 / 2) := by
    norm_num [bowl, Exact.dot_eq_sum]
  exact ends_within_iterationBound bounded_bowl one_pos rfl hvalue hvalid (by norm_num) (.inl rfl)
    (le_refl _)

end Run

end LocalOptimization.TrustRegion
