import Mathlib
import LocalOptimization.Proofs.QuasiNewton
import LocalOptimization.TrustRegion.Solver

/-!
# Iterations of a trust region

An iteration tries one step. What it has found out about the step decides whether the iterate moves
and how the radius changes, and the two decisions are taken apart from each other.
-/

namespace LocalOptimization.TrustRegion

variable {K : Type} [Scalar K] {n : Nat} {ε σ : Type}
variable {f : Objective K n ε} {c : Config K} {x : Vector K n}

/-- The parameters that a run accepts. -/
structure Config.Valid (c : Config K) : Prop where
  maxRadius : Scalar.isPositive c.maxRadius = true
  initialRadius : Scalar.isPositive c.initialRadius = true
  initialRadius_le : c.initialRadius ≤ c.maxRadius
  minRadius : Scalar.isFinite c.minRadius = true
  minRadius_nonneg : 0.0 ≤ c.minRadius
  minRadius_lt : c.minRadius < c.initialRadius
  eta_nonneg : 0.0 ≤ c.eta
  eta_lt : c.eta < 0.25
  gradientTol : Scalar.isPositive c.gradientTol = true

theorem Config.validate_eq_ok_iff : c.validate = .ok () ↔ c.Valid := by
  constructor
  · intro h
    simp only [validate] at h
    split_ifs at h with hmax hinitial hmin heta htol
    simp only [Bool.not_eq_true, Bool.not_eq_false', Bool.and_eq_true, decide_eq_true_iff]
      at hmax hinitial hmin heta htol
    exact ⟨hmax, hinitial.1, hinitial.2, hmin.1.1, hmin.1.2, hmin.2, heta.1, heta.2, htol⟩
  · rintro ⟨hmax, hinitial, hle, hmin, hnonneg, hlt, heta, hquarter, htol⟩
    simp [validate, hmax, hinitial, hle, hmin, hnonneg, hlt, heta, hquarter, htol]

theorem HessianSource.hessian_of_provided {source : HessianSource K n} {y : Vector K n}
    {h : Matrix K n} (provided : f.hessian y = .ok (some h)) : source.hessian f y = .ok h := by
  unfold HessianSource.hessian
  rw [provided]
  rfl

namespace State

theorem tryStep_eq_ok_iff {s : State K n} {o : Outcome K n} :
    s.tryStep f c = .ok o ↔
      o.trial = c.subproblem.solve s.model s.radius ∧
        f.value (s.current.x + o.trial.p) = .ok o.value ∧
        o.actual = s.current.value - o.value ∧
        o.predicted = s.model.predictedReduction o.trial.p ∧
        o.ratio = reductionRatio (f.isFiniteAt (s.current.x + o.trial.p) o.value) o.actual
          o.predicted := by
  constructor
  · intro h
    obtain ⟨value, hvalue, h⟩ := Except.bind_eq_ok_iff.mp h
    cases h
    exact ⟨rfl, hvalue, rfl, rfl, rfl⟩
  · rcases o with ⟨trial, value, actual, predicted, ratio⟩
    rintro ⟨htrial, hvalue, hactual, hpredicted, hratio⟩
    dsimp only at htrial hvalue hactual hpredicted hratio
    subst htrial hactual hpredicted hratio
    exact Except.bind_eq_ok_iff.mpr ⟨value, hvalue, rfl⟩

/-- An iteration leads from `s` to `t`, with this outcome of the step that it tries. -/
structure Advances (f : Objective K n ε) (c : Config K) (s t : State K n) (o : Outcome K n) :
    Prop where
  large : ¬ s.radius < c.minRadius
  tried : s.tryStep f c = .ok o
  radius : t.radius = nextRadius c.maxRadius s.radius o.ratio o.trial.onBoundary
  moved : c.eta < o.ratio → t.current.x = s.current.x + o.trial.p ∧ t.current.value = o.value
  gradient : c.eta < o.ratio → f.gradient t.current.x = .ok t.current.gradient
  hessian : c.eta < o.ratio → t.source.hessian f t.current.x = .ok t.hessian
  kept : ¬ c.eta < o.ratio → t.current = s.current ∧ t.hessian = s.hessian ∧ t.source = s.source

/-- What an accepted step does to the source of Hessians, and whether its pair is skipped. -/
structure Learns (s t : State K n) (o : Outcome K n) (stale : Bool) : Prop where
  source : t.source =
    (s.source.update? o.trial.p (t.current.gradient - s.current.gradient)).getD s.source
  stale : stale =
    (s.source.update? o.trial.p (t.current.gradient - s.current.gradient)).isNone

theorem learns_of_advance {i : Nat} {s t : State K n} {event : Event K n}
    (h : s.advance f c i = .ok (some (t, event))) :
    ∃ o stale, s.Advances f c t o ∧ event = t.event i o (decide (c.eta < o.ratio)) stale ∧
      (c.eta < o.ratio → s.Learns t o stale) ∧ (¬ c.eta < o.ratio → stale = false) := by
  rw [advance] at h
  split at h
  · cases h
  · next hlarge =>
      obtain ⟨o, htried, h⟩ := Except.bind_eq_ok_iff.mp h
      dsimp only at h
      split at h
      · next haccepted =>
          obtain ⟨⟨u, stale⟩, haccept, h⟩ := Except.bind_eq_ok_iff.mp h
          cases h
          obtain ⟨gradient, hgradient, haccept⟩ := Except.bind_eq_ok_iff.mp haccept
          obtain ⟨hessian, hhessian, haccept⟩ := Except.bind_eq_ok_iff.mp haccept
          cases haccept
          let skipped := (s.source.update? o.trial.p (gradient - s.current.gradient)).isNone
          refine ⟨o, skipped, ?_, ?_, fun _ => ⟨rfl, rfl⟩,
            fun hrejected => absurd haccepted hrejected⟩
          · exact {
              large := hlarge
              tried := htried
              radius := rfl
              moved := fun _ => ⟨rfl, rfl⟩
              gradient := fun _ => hgradient
              hessian := fun _ => hhessian
              kept := fun hrejected => absurd haccepted hrejected }
          · rw [decide_eq_true haccepted]
      · next hrejected =>
          cases h
          refine ⟨o, false, ?_, ?_, fun haccepted => absurd haccepted hrejected, fun _ => rfl⟩
          · exact {
              large := hlarge
              tried := htried
              radius := rfl
              moved := fun haccepted => absurd haccepted hrejected
              gradient := fun haccepted => absurd haccepted hrejected
              hessian := fun haccepted => absurd haccepted hrejected
              kept := fun _ => ⟨rfl, rfl, rfl⟩ }
          · rw [decide_eq_false hrejected]

theorem advances_of_advance {i : Nat} {s t : State K n} {event : Event K n}
    (h : s.advance f c i = .ok (some (t, event))) :
    ∃ o stale, s.Advances f c t o ∧ event = t.event i o (decide (c.eta < o.ratio)) stale ∧
      (¬ c.eta < o.ratio → stale = false) := by
  obtain ⟨o, stale, advances, hevent, -, hstale⟩ := learns_of_advance h
  exact ⟨o, stale, advances, hevent, hstale⟩

theorem advance_eq_none_iff {i : Nat} {s : State K n} :
    s.advance f c i = .ok none ↔ s.radius < c.minRadius := by
  rw [advance]
  split
  next hsmall => exact iff_of_true rfl hsmall
  next hlarge =>
    refine iff_of_false ?_ hlarge
    intro h
    obtain ⟨o, -, h⟩ := Except.bind_eq_ok_iff.mp h
    dsimp only at h
    split at h
    · obtain ⟨t, -, h⟩ := Except.bind_eq_ok_iff.mp h
      cases h
    · cases h

end State

theorem start_eq_ok_iff {s : State K n} :
    start f c x = .ok s ↔
      c.Valid ∧ allFinite x = true ∧ ∃ e h, f.evaluate x = .ok e ∧
        (HessianSource.ofChoice c.hessian).hessian f x = .ok h ∧
        (f.domain x && e.isFinite && h.all allFinite) = true ∧
        s = { current := e, hessian := h, source := .ofChoice c.hessian
              radius := c.initialRadius } := by
  constructor
  · intro h
    obtain ⟨⟨⟩, hvalid, h⟩ := Except.bind_eq_ok_iff.mp h
    rw [Except.mapError_eq_ok_iff] at hvalid
    split at h
    · cases h
    · next hpoint =>
        obtain ⟨e, he, h⟩ := Except.bind_eq_ok_iff.mp h
        obtain ⟨hessian, hhessian, h⟩ := Except.bind_eq_ok_iff.mp h
        rw [Except.mapError_eq_ok_iff] at he hhessian
        split at h
        · cases h
        · next hfinite =>
            cases h
            exact ⟨Config.validate_eq_ok_iff.mp hvalid, by simpa using hpoint, e, hessian, he,
              hhessian, by simpa using hfinite, rfl⟩
  · rintro ⟨hvalid, hpoint, e, h, he, hhessian, hfinite, rfl⟩
    rw [start, Config.validate_eq_ok_iff.mpr hvalid, he]
    simp only [Except.mapError, bind, Except.bind, hpoint, hhessian, hfinite]
    rfl

theorem minimize_of_start {o : Observer σ (Event K n)} {w : σ} {s : State K n}
    (h : start f c x = .ok s) :
    minimize f x c o w =
      let r := (iteration f c).runFrom o c.maxIters c.historyLimit s s.startEvent w
      (r.1.map (solution c), r.2) := by
  rw [minimize, h]

theorem minimize_of_start_error {o : Observer σ (Event K n)} {w : σ} {e : Error ε}
    (h : start f c x = .error e) : minimize f x c o w = (.error e, w) := by
  rw [minimize, h]

end LocalOptimization.TrustRegion
