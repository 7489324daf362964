import Mathlib
import LocalOptimization.Proofs.OrderedScalar
import LocalOptimization.Proofs.TrustRegion.Length
import LocalOptimization.Proofs.TrustRegion.Solver

/-!
# From one report to the next

What a trust region reports of an iteration follows from its report on the one before: the step that
the model proposes there, the decision on the step and the decision on the radius. Both doubles and
exact numbers obey the same law. Exact numbers add that the radius stays positive, that no step is
longer than it, and that accepted steps achieve their share of the predicted reduction.
-/

namespace LocalOptimization.TrustRegion

variable {K : Type} [Scalar K] {n : Nat} {ε σ : Type}
variable {f : Objective K n ε} {c : Config K} {x : Vector K n}

/-- The step is taken: it is finite and decreases the objective, as the model predicted. -/
structure Accepted (f : Objective K n ε) (c : Config K) (before after : Event K n)
    (trial : Trial K n) : Prop where
  ratio : c.eta < after.record.ratio
  predicted : 0.0 < after.predictedReduction
  x : after.record.x = before.record.x + trial.p
  value : f.value after.record.x = .ok after.record.objective
  finite : f.isFiniteAt after.record.x after.record.objective = true
  decreases : after.record.objective < before.record.objective
  gradient : f.gradient after.record.x = .ok after.gradient
  gradientNorm : after.record.gradientNorm = norm after.gradient

/-- The step is not taken, and the run stays where it is. -/
structure Rejected (c : Config K) (before after : Event K n) : Prop where
  ratio : ¬ c.eta < after.record.ratio
  x : after.record.x = before.record.x
  objective : after.record.objective = before.record.objective
  gradient : after.gradient = before.gradient
  gradientNorm : after.record.gradientNorm = before.record.gradientNorm
  stale : after.record.stale = false

/-- The report `after` follows `before`: the iteration tried the step `trial`, which `model`
proposes, and the objective at its end is `value`. -/
structure Transition (f : Objective K n ε) (c : Config K) (before after : Event K n)
    (model : Model K n) (trial : Trial K n) (value : K) : Prop where
  large : ¬ before.record.radius < c.minRadius
  iteration : after.record.iteration = before.record.iteration + 1
  modelGradient : model.gradient = before.gradient
  modelHessian : ∃ source : HessianSource K n,
    source.hessian f before.record.x = .ok model.hessian
  proposed : trial = c.subproblem.solve model before.record.radius
  stepNorm : after.record.stepNorm = norm trial.p
  evaluated : f.value (before.record.x + trial.p) = .ok value
  actual : after.actualReduction = before.record.objective - value
  predicted : after.predictedReduction = model.predictedReduction trial.p
  ratio : after.record.ratio =
    reductionRatio (f.isFiniteAt (before.record.x + trial.p) value) after.actualReduction
      after.predictedReduction
  accepted : after.record.accepted = true → Accepted f c before after trial
  rejected : after.record.accepted = false → Rejected c before after
  shrinks : after.record.ratio < 0.25 → after.record.radius = before.record.radius * 0.25
  grows : ¬ after.record.ratio < 0.25 → 0.75 < after.record.ratio ∧ trial.onBoundary = true →
    after.record.radius = Scalar.min (2.0 * before.record.radius) c.maxRadius
  keeps : ¬ after.record.ratio < 0.25 → ¬ (0.75 < after.record.ratio ∧ trial.onBoundary = true) →
    after.record.radius = before.record.radius

theorem Transition.radius_cases {before after : Event K n} {model : Model K n}
    {trial : Trial K n} {value : K} (transition : Transition f c before after model trial value) :
    after.record.radius = before.record.radius * 0.25 ∨
      after.record.radius = Scalar.min (2.0 * before.record.radius) c.maxRadius ∨
        after.record.radius = before.record.radius := by
  by_cases hshrinks : after.record.ratio < 0.25
  · exact .inl (transition.shrinks hshrinks)
  · by_cases hgrows : 0.75 < after.record.ratio ∧ trial.onBoundary = true
    · exact .inr (.inl (transition.grows hshrinks hgrows))
    · exact .inr (.inr (transition.keeps hshrinks hgrows))

def Follows (f : Objective K n ε) (c : Config K) (before after : Event K n) : Prop :=
  ∃ model trial value, Transition f c before after model trial value

/-- A run shows an observer these events, first the report on the start if it can start, and the
history of its result holds the last of their records. -/
structure Shows (f : Objective K n ε) (x : Vector K n) (c : Config K)
    (o : Observer σ (Event K n)) (w : σ) (events : List (Event K n)) : Prop where
  head : events.head? = (start f c x).toOption.map State.startEvent
  log : minimize f x c o.logging (w, #[]) =
    ((minimize f x c o w).1, (minimize f x c o w).2, events.toArray)
  history : ∀ sol, (minimize f x c o w).1 = .ok sol →
    sol.history.toList <:+ events.map Event.record

theorem Shows.nil_or_start {o : Observer σ (Event K n)} {w : σ} {events : List (Event K n)}
    (shown : Shows f x c o w events) :
    events = [] ∨ ∃ s, start f c x = .ok s ∧ events.head? = some s.startEvent := by
  have hhead := shown.head
  cases hstart : start f c x with
  | error e =>
      rw [hstart] at hhead
      exact .inl (List.head?_eq_none_iff.mp hhead)
  | ok s =>
      rw [hstart] at hhead
      exact .inr ⟨s, rfl, hhead⟩

section Step

theorem reductionRatio_of_not_finite {actual predicted : K} :
    reductionRatio false actual predicted = -Scalar.infinity :=
  rfl

theorem reductionRatio_of_nonpos {actual predicted : K} (h : predicted ≤ 0.0) :
    reductionRatio true actual predicted = 0.0 :=
  if_pos h

theorem reductionRatio_of_not_nonpos {actual predicted : K} (h : ¬ predicted ≤ 0.0) :
    reductionRatio true actual predicted = actual / predicted :=
  if_neg h

theorem of_lt_reductionRatio [OrderedScalar K] {eta actual predicted : K} {finite : Bool}
    (heta : 0.0 ≤ eta) (h : eta < reductionRatio finite actual predicted) :
    finite = true ∧ 0.0 < predicted ∧ 0.0 < actual := by
  have hpos := OrderedScalar.lt_of_le_of_lt heta h
  cases finite with
  | false =>
      rw [reductionRatio_of_not_finite] at hpos
      exact absurd hpos OrderedScalar.not_pos_neg_infinity
  | true =>
      by_cases hpredicted : predicted ≤ 0.0
      · rw [reductionRatio_of_nonpos hpredicted] at hpos
        exact absurd hpos (OrderedScalar.lt_irrefl _)
      · rw [reductionRatio_of_not_nonpos hpredicted] at hpos
        obtain ⟨hactual, hpositive⟩ := OrderedScalar.pos_of_div_pos hpos hpredicted
        exact ⟨rfl, hpositive, hactual⟩

variable {maxRadius radius ratio : K} {onBoundary : Bool}

theorem nextRadius_of_shrinks (h : ratio < 0.25) :
    nextRadius maxRadius radius ratio onBoundary = radius * 0.25 :=
  if_pos h

theorem nextRadius_of_grows (hshrinks : ¬ ratio < 0.25)
    (h : 0.75 < ratio ∧ onBoundary = true) :
    nextRadius maxRadius radius ratio onBoundary = Scalar.min (2.0 * radius) maxRadius := by
  rw [nextRadius, shrinkBelow, growAbove, if_neg hshrinks]
  exact if_pos (Bool.and_eq_true_iff.mpr ⟨decide_eq_true h.1, h.2⟩)

theorem nextRadius_of_keeps (hshrinks : ¬ ratio < 0.25)
    (h : ¬ (0.75 < ratio ∧ onBoundary = true)) :
    nextRadius maxRadius radius ratio onBoundary = radius := by
  rw [nextRadius, shrinkBelow, growAbove, if_neg hshrinks, if_neg]
  intro hgrows
  rw [Bool.and_eq_true, decide_eq_true_iff] at hgrows
  exact h hgrows

structure Event.ReportsOn (e : Event K n) (i : Nat) (s : State K n) : Prop where
  iteration : e.record.iteration = i
  x : e.record.x = s.current.x
  objective : e.record.objective = s.current.value
  gradient : e.gradient = s.current.gradient
  gradientNorm : e.record.gradientNorm = s.current.gradientNorm
  radius : e.record.radius = s.radius

theorem State.startEvent_reportsOn (s : State K n) : s.startEvent.ReportsOn 0 s :=
  ⟨rfl, rfl, rfl, rfl, rfl, rfl⟩

theorem State.event_reportsOn (s : State K n) (i : Nat) (o : Outcome K n) (accepted stale : Bool) :
    (s.event i o accepted stale).ReportsOn i s :=
  ⟨rfl, rfl, rfl, rfl, rfl, rfl⟩

/-- The Hessian of the model is one that the objective or a source provides at the iterate. -/
def State.HasSource (f : Objective K n ε) (s : State K n) : Prop :=
  ∃ source : HessianSource K n, source.hessian f s.current.x = .ok s.hessian

variable {s t : State K n} {o : Outcome K n} {before : Event K n} {i : Nat} {stale : Bool}

namespace State.Advances

theorem accepted [OrderedScalar K] (advances : s.Advances f c t o) (valid : c.Valid)
    (reports : before.ReportsOn i s) (h : c.eta < o.ratio) {after : Event K n}
    (hafter : after = t.event (i + 1) o true stale) : Accepted f c before after o.trial := by
  obtain ⟨-, hvalue, hactual, -, hratio⟩ := tryStep_eq_ok_iff.mp advances.tried
  obtain ⟨hx, hmoved⟩ := advances.moved h
  obtain ⟨hfinite, hpositive, hpos⟩ := of_lt_reductionRatio valid.eta_nonneg (hratio ▸ h)
  rw [← hx, ← hmoved] at hvalue hfinite
  rw [hactual, ← hmoved, ← reports.objective] at hpos
  subst hafter
  exact {
    ratio := h
    predicted := hpositive
    x := reports.x ▸ hx
    value := hvalue
    finite := hfinite
    decreases := OrderedScalar.lt_of_sub_pos hpos
    gradient := advances.gradient h
    gradientNorm := rfl }

theorem rejected (advances : s.Advances f c t o) (reports : before.ReportsOn i s)
    (h : ¬ c.eta < o.ratio) : Rejected c before (t.event (i + 1) o false false) := by
  have hcurrent := (advances.kept h).1
  exact {
    ratio := h
    x := reports.x ▸ congrArg Evaluation.x hcurrent
    objective := reports.objective ▸ congrArg Evaluation.value hcurrent
    gradient := reports.gradient ▸ congrArg Evaluation.gradient hcurrent
    gradientNorm := reports.gradientNorm ▸ congrArg Evaluation.gradientNorm hcurrent
    stale := rfl }

theorem hasSource (advances : s.Advances f c t o) (hs : s.HasSource f) : t.HasSource f := by
  by_cases h : c.eta < o.ratio
  · exact ⟨t.source, advances.hessian h⟩
  · obtain ⟨hcurrent, hhessian, -⟩ := advances.kept h
    rw [State.HasSource, hcurrent, hhessian]
    exact hs

theorem transition [OrderedScalar K] (advances : s.Advances f c t o) (valid : c.Valid)
    (reports : before.ReportsOn i s) (hs : s.HasSource f)
    (hstale : ¬ c.eta < o.ratio → stale = false) {after : Event K n}
    (hafter : after = t.event (i + 1) o (decide (c.eta < o.ratio)) stale) :
    Transition f c before after s.model o.trial o.value := by
  obtain ⟨htrial, hvalue, hactual, hpredicted, hratio⟩ := tryStep_eq_ok_iff.mp advances.tried
  have hradius := advances.radius
  have hrecord : after.record.ratio = o.ratio := by rw [hafter]; rfl
  have hresized : after.record.radius =
      nextRadius c.maxRadius before.record.radius after.record.ratio o.trial.onBoundary := by
    rw [hrecord, reports.radius, hafter]
    exact hradius
  rw [← reports.x] at hvalue hratio
  exact {
    large := reports.radius ▸ advances.large
    iteration := by rw [hafter, reports.iteration]; rfl
    modelGradient := reports.gradient.symm
    modelHessian := reports.x ▸ hs
    proposed := reports.radius ▸ htrial
    stepNorm := by rw [hafter]; rfl
    evaluated := hvalue
    actual := by rw [hafter, reports.objective]; exact hactual
    predicted := by rw [hafter]; exact hpredicted
    ratio := by rw [hafter]; exact hratio
    accepted := fun haccepted => by
      have h : c.eta < o.ratio := by rw [hafter] at haccepted; exact of_decide_eq_true haccepted
      rw [decide_eq_true h] at hafter
      exact advances.accepted valid reports h hafter
    rejected := fun hrejected => by
      have h : ¬ c.eta < o.ratio := by
        rw [hafter] at hrejected
        exact of_decide_eq_false hrejected
      rw [decide_eq_false h, hstale h] at hafter
      rw [hafter]
      exact advances.rejected reports h
    shrinks := fun h => hresized.trans (nextRadius_of_shrinks h)
    grows := fun hshrinks h => hresized.trans (nextRadius_of_grows hshrinks h)
    keeps := fun hshrinks h => hresized.trans (nextRadius_of_keeps hshrinks h) }

end State.Advances

theorem hasSource_of_start {s : State K n} (h : start f c x = .ok s) : s.HasSource f := by
  obtain ⟨-, -, e, hessian, hevaluate, hhessian, -, rfl⟩ := start_eq_ok_iff.mp h
  obtain ⟨rfl, -, -⟩ := Objective.evaluate_eq_ok_iff.mp hevaluate
  exact ⟨.ofChoice c.hessian, hhessian⟩

end Step

section Run

variable [OrderedScalar K]

theorem isChain_follows {s t : State K n} {events : List (Event K n)} (valid : c.Valid)
    (hs : s.HasSource f) (chain : (iteration f c).Chain 0 s events t) :
    (s.startEvent :: events).IsChain (Follows f c) := by
  refine Iteration.Chain.isChain (P := fun i s e => e.ReportsOn i s ∧ s.HasSource f) ?_ chain
    ⟨s.startEvent_reportsOn, hs⟩
  rintro i s t before event ⟨reports, hs⟩ - hadvance
  obtain ⟨o, stale, advances, rfl, hstale⟩ :=
    State.advances_of_advance (Except.mapError_eq_ok_iff.mp hadvance)
  exact ⟨⟨t.event_reportsOn _ _ _ _, advances.hasSource hs⟩, s.model, o.trial, o.value,
    advances.transition valid reports hs hstale rfl⟩

structure Event.Sound (f : Objective K n ε) (c : Config K) (e : Event K n) : Prop where
  value : f.value e.record.x = .ok e.record.objective
  finite : Scalar.isFinite e.record.objective = true
  radius_nonneg : 0.0 ≤ e.record.radius
  radius_le : e.record.radius ≤ c.maxRadius

theorem min_maxRadius (valid : c.Valid) {a : K} (ha : 0.0 ≤ a) :
    0.0 ≤ Scalar.min a c.maxRadius ∧ Scalar.min a c.maxRadius ≤ c.maxRadius := by
  obtain ⟨hfinite, hpos⟩ := Bool.and_eq_true_iff.mp valid.maxRadius
  have hpos := of_decide_eq_true hpos
  have hmax := OrderedScalar.isNaN_of_isFinite hfinite
  have hself : c.maxRadius ≤ c.maxRadius :=
    OrderedScalar.le_of_not_lt (OrderedScalar.lt_irrefl _) hmax hmax
  rw [Scalar.min]
  split
  · exact ⟨OrderedScalar.le_of_lt hpos, hself⟩
  · next hsmall =>
      split
      · exact ⟨OrderedScalar.le_of_lt hpos, hself⟩
      · next hnan => exact ⟨ha, OrderedScalar.le_of_not_lt hsmall (by simpa using hnan) hmax⟩

theorem Follows.sound {before after : Event K n} (valid : c.Valid)
    (follows : Follows f c before after) (h : before.Sound f c) : after.Sound f c := by
  obtain ⟨model, trial, value, transition⟩ := follows
  have hobjective : f.value after.record.x = .ok after.record.objective ∧
      Scalar.isFinite after.record.objective = true := by
    cases haccepted : after.record.accepted with
    | true =>
        have accepted := transition.accepted haccepted
        exact ⟨accepted.value, (Bool.and_eq_true_iff.mp accepted.finite).2⟩
    | false =>
        have rejected := transition.rejected haccepted
        rw [rejected.x, rejected.objective]
        exact ⟨h.value, h.finite⟩
  have hradius : 0.0 ≤ after.record.radius ∧ after.record.radius ≤ c.maxRadius := by
    rcases transition.radius_cases with hquarter | hdouble | hsame
    · rw [hquarter]
      exact ⟨OrderedScalar.nonneg_quarter h.radius_nonneg,
        OrderedScalar.le_trans (OrderedScalar.quarter_le h.radius_nonneg) h.radius_le⟩
    · rw [hdouble]
      exact min_maxRadius valid (OrderedScalar.nonneg_double h.radius_nonneg)
    · rw [hsame]
      exact ⟨h.radius_nonneg, h.radius_le⟩
  exact ⟨hobjective.1, hobjective.2, hradius.1, hradius.2⟩

theorem Follows.objective_le {before after : Event K n} (follows : Follows f c before after)
    (h : before.Sound f c) : after.record.objective ≤ before.record.objective := by
  obtain ⟨model, trial, value, transition⟩ := follows
  cases haccepted : after.record.accepted with
  | true => exact OrderedScalar.le_of_lt (transition.accepted haccepted).decreases
  | false =>
      have hdefined := OrderedScalar.isNaN_of_isFinite h.finite
      rw [(transition.rejected haccepted).objective]
      exact OrderedScalar.le_of_not_lt (OrderedScalar.lt_irrefl _) hdefined hdefined

theorem startEvent_sound {s : State K n} (h : start f c x = .ok s) : s.startEvent.Sound f c := by
  obtain ⟨valid, -, e, hessian, hevaluate, -, hfinite, rfl⟩ := start_eq_ok_iff.mp h
  obtain ⟨rfl, hvalue, -⟩ := Objective.evaluate_eq_ok_iff.mp hevaluate
  simp only [Evaluation.isFinite, Bool.and_eq_true] at hfinite
  have hinitial := of_decide_eq_true (Bool.and_eq_true_iff.mp valid.initialRadius).2
  exact ⟨hvalue, hfinite.1.2.1, OrderedScalar.le_of_lt hinitial, valid.initialRadius_le⟩

/-- The events of a run: each follows the one before, the objective does not increase along them and
the radius stays within its bound. -/
structure Descends (f : Objective K n ε) (c : Config K) (events : List (Event K n)) : Prop where
  follows : events.IsChain (Follows f c)
  objective : events.Pairwise fun before after => after.record.objective ≤ before.record.objective
  sound : ∀ e ∈ events, e.Sound f c

theorem descends_of_isChain {first : Event K n} {events : List (Event K n)} (valid : c.Valid)
    (hfirst : first.Sound f c) (follows : (first :: events).IsChain (Follows f c)) :
    Descends f c (first :: events) := by
  have hsound : ∀ e ∈ first :: events, e.Sound f c :=
    follows.induction _ _ (fun _ _ h => h.sound valid) fun _ => hfirst
  have hsteps : (first :: events).IsChain
      fun before after => after.record.objective ≤ before.record.objective :=
    follows.imp_of_mem_imp fun before after hbefore _ h => h.objective_le (hsound before hbefore)
  have : Trans (fun a b : Event K n => b.record.objective ≤ a.record.objective)
      (fun a b : Event K n => b.record.objective ≤ a.record.objective)
      (fun a b : Event K n => b.record.objective ≤ a.record.objective) :=
    ⟨fun hab hbc => OrderedScalar.le_trans hbc hab⟩
  exact ⟨follows, hsteps.pairwise, hsound⟩

theorem exists_shows (f : Objective K n ε) (x : Vector K n) (c : Config K)
    (o : Observer σ (Event K n)) (w : σ) :
    ∃ events, Shows f x c o w events ∧ Descends f c events := by
  cases hstart : start f c x with
  | error e =>
      refine ⟨[], ⟨?_, ?_, ?_⟩, ⟨.nil, .nil, by simp⟩⟩
      · rw [hstart]
        rfl
      · rw [minimize_of_start_error hstart, minimize_of_start_error hstart]
      · rw [minimize_of_start_error hstart]
        nofun
  | ok s =>
      obtain ⟨events, t, chain, hlog, hhistory⟩ :=
        (iteration f c).exists_log o c.maxIters c.historyLimit s s.startEvent w
      have valid := (start_eq_ok_iff.mp hstart).1
      have follows := isChain_follows valid (hasSource_of_start hstart) chain
      refine ⟨s.startEvent :: events, ⟨?_, ?_, ?_⟩,
        descends_of_isChain valid (startEvent_sound hstart) follows⟩
      · rw [hstart]
        rfl
      · rw [minimize_of_start hstart, minimize_of_start hstart, hlog]
      · rw [minimize_of_start hstart]
        intro sol hsol
        obtain ⟨ending, hending, rfl⟩ := Except.map_eq_ok_iff.mp hsol
        exact hhistory ending hending

end Run

section Exact

variable {f : Objective ℝ n ε} {c : Config ℝ} {before after : Event ℝ n}

theorem Follows.radius_pos (valid : c.Valid) (follows : Follows f c before after)
    (h : 0 < before.record.radius) : 0 < after.record.radius := by
  obtain ⟨model, trial, value, transition⟩ := follows
  have hmax := (Exact.isPositive_iff c.maxRadius).mp valid.maxRadius
  rcases transition.radius_cases with hquarter | hdouble | hsame
  · rw [hquarter]
    exact mul_pos h (by norm_num)
  · rw [hdouble, Exact.min_eq]
    exact lt_min (mul_pos (by norm_num) h) hmax
  · rw [hsame]
    exact h

theorem radius_pos_of_shows {x : Vector ℝ n} {o : Observer σ (Event ℝ n)} {w : σ}
    {events : List (Event ℝ n)} (shown : Shows f x c o w events) (descends : Descends f c events) :
    ∀ e ∈ events, 0 < e.record.radius := by
  rcases shown.nil_or_start with rfl | ⟨s, hstart, hhead⟩
  · exact nofun
  · obtain ⟨valid, -, e, hessian, -, -, -, rfl⟩ := start_eq_ok_iff.mp hstart
    apply descends.follows.induction _ _ fun _ _ h => h.radius_pos valid
    intro nonempty
    rw [List.head_of_mem_head? hhead]
    exact (Exact.isPositive_iff c.initialRadius).mp valid.initialRadius

theorem Follows.stepNorm_le (follows : Follows f c before after)
    (h : 0 < before.record.radius) : after.record.stepNorm ≤ before.record.radius := by
  obtain ⟨model, trial, value, transition⟩ := follows
  rw [transition.stepNorm, transition.proposed]
  exact c.subproblem.norm_solve_le model (le_of_lt h)

theorem Follows.eta_mul_lt (follows : Follows f c before after)
    (haccepted : after.record.accepted = true) :
    c.eta * after.predictedReduction < after.actualReduction := by
  obtain ⟨model, trial, value, transition⟩ := follows
  have accepted := transition.accepted haccepted
  have hpredicted := accepted.predicted
  rw [Exact.zero_eq] at hpredicted
  have hfinite : f.isFiniteAt (before.record.x + trial.p) value = true := by
    have hvalue := accepted.x ▸ accepted.value
    rw [transition.evaluated, Except.ok.injEq] at hvalue
    rw [hvalue, ← accepted.x]
    exact accepted.finite
  have hratio := transition.ratio
  rw [hfinite, reductionRatio_of_not_nonpos (by rw [Exact.zero_eq]; exact not_le.mpr hpredicted)]
    at hratio
  exact (lt_div_iff₀ hpredicted).mp (hratio ▸ accepted.ratio)

end Exact

/-- Every run obeys the law of transitions, on doubles and on exact numbers. -/
theorem exists_transitions :
    (∀ {n : Nat} {ε σ : Type} (f : Objective Float n ε) (x : Vector Float n) (c : Config Float)
      (o : Observer σ (Event Float n)) (w : σ),
      ∃ events, Shows f x c o w events ∧ Descends f c events) ∧
    (∀ {n : Nat} {ε σ : Type} (f : Objective ℝ n ε) (x : Vector ℝ n) (c : Config ℝ)
      (o : Observer σ (Event ℝ n)) (w : σ),
      ∃ events, Shows f x c o w events ∧ Descends f c events ∧
        (∀ e ∈ events, 0 < e.record.radius) ∧
        events.IsChain fun before after =>
          after.record.stepNorm ≤ before.record.radius ∧
          (after.record.accepted = true →
            c.eta * after.predictedReduction < after.actualReduction)) := by
  constructor
  · intro n ε σ f x c o w
    exact exists_shows f x c o w
  · intro n ε σ f x c o w
    obtain ⟨events, shown, descends⟩ := exists_shows f x c o w
    have hpos := radius_pos_of_shows shown descends
    refine ⟨events, shown, descends, hpos, ?_⟩
    exact descends.follows.imp_of_mem_imp fun before after hbefore _ h =>
      ⟨h.stepNorm_le (hpos before hbefore), h.eta_mul_lt⟩

end LocalOptimization.TrustRegion
