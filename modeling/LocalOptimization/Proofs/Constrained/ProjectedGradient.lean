import LocalOptimization.Constrained.ProjectedGradient
import LocalOptimization.Proofs.Constrained.Methods
import LocalOptimization.Proofs.LineSearch

/-!
# Steps of the projected gradient method

An iteration moves to a point of the projection arc where the objective was evaluated and has
decreased sufficiently.
-/

namespace LocalOptimization.Constrained.ProjectedGradient

variable {K : Type} [Scalar K] {n : Nat} {ε : Type}
variable {f : Objective K n ε} {b : Box K n} {c : Config K} {x : Vector K n}

structure Config.Valid (c : Config K) : Prop where
  initialStep : Scalar.isPositive c.initialStep = true
  sufficientDecrease : Scalar.inOpenUnit c.c1 = true
  shrink : Scalar.inOpenUnit c.shrink = true
  trialAllowed : 0 < c.maxBacktracks
  tolerancePositive : Scalar.isPositive c.tolerance = true
  allowed : 0 < c.maxIters

theorem Config.validate_eq_ok_iff : c.validate = .ok () ↔ c.Valid := by
  constructor
  · intro h
    rw [validate] at h
    split at h
    · cases h
    next hstep =>
      obtain ⟨⟨⟩, htolerance, hallowed⟩ := Except.bind_eq_ok_iff.mp h
      simp only [Bool.not_eq_true, Bool.not_eq_false', Bool.and_eq_true, bne_iff_ne] at hstep
      exact ⟨hstep.1.1.1, hstep.1.1.2, hstep.1.2, Nat.pos_of_ne_zero hstep.2,
        checkTolerance_eq_ok_iff.mp htolerance, checkOuterIters_eq_ok_iff.mp hallowed⟩
  · rintro ⟨hinitial, hc1, hshrink, htrial, htolerance, hallowed⟩
    rw [validate, checkTolerance_eq_ok_iff.mpr htolerance, checkOuterIters_eq_ok_iff.mpr hallowed]
    simp [hinitial, hc1, hshrink, Nat.ne_of_gt htrial, bind, Except.bind]

theorem start_eq_ok_iff {s : State K n} :
    start f b x c = .ok s ↔ c.Valid ∧ allFinite x = true ∧
      ∃ e, f.evaluate (b.project x) = .ok e ∧ (f.domain e.x && e.isFinite) = true ∧
        s = .reached b 0 0.0 e := by
  rw [start, ← Config.validate_eq_ok_iff]
  constructor
  · intro h
    obtain ⟨⟨⟩, hvalid, h⟩ := Except.bind_eq_ok_iff.mp h
    rw [Except.mapError_eq_ok_iff] at hvalid
    split at h
    · cases h
    next hpoint =>
      obtain ⟨e, he, h⟩ := Except.bind_eq_ok_iff.mp h
      rw [Except.mapError_eq_ok_iff] at he
      split at h
      · cases h
      next hfinite =>
        cases h
        exact ⟨hvalid, by simpa using hpoint, e, he, by simpa using hfinite, rfl⟩
  · rintro ⟨hvalid, hpoint, e, he, hfinite, rfl⟩
    rw [hvalid, he]
    simp only [Except.mapError, bind, Except.bind, hpoint, hfinite]
    rfl

theorem arcSearch_congr {c' : Config K} (hc1 : c'.c1 = c.c1) (hshrink : c'.shrink = c.shrink) :
    arcSearch c' f b = arcSearch c f b := by
  have haccepts : accepts c' f = accepts c f := by
    funext current x value
    rw [accepts, accepts, hc1]
  funext current budget alpha
  induction budget generalizing alpha with
  | zero => rfl
  | succ budget ih => simp only [arcSearch, haccepts, hshrink, ih]

/-- The search along the arc has found this step length and this iterate. -/
structure Found (f : Objective K n ε) (b : Box K n) (c : Config K) (current : Evaluation K n)
    (alpha : K) (next : Evaluation K n) : Prop where
  x : next.x = b.project (current.x - alpha * current.gradient)
  value : f.value next.x = .ok next.value
  gradient : f.gradient next.x = .ok next.gradient
  accepted : accepts c f current next.x next.value = true

theorem found_of_arcSearch {current next : Evaluation K n} {budget : Nat} {alpha a : K}
    (h : arcSearch c f b current budget alpha = .ok (some (a, next))) :
    Found f b c current a next := by
  induction budget generalizing alpha with
  | zero => cases h
  | succ budget ih =>
      obtain ⟨value, hvalue, h⟩ := Except.bind_eq_ok_iff.mp h
      split at h
      next haccepted =>
        obtain ⟨gradient, hgradient, h⟩ := Except.bind_eq_ok_iff.mp h
        cases h
        exact ⟨rfl, hvalue, hgradient, haccepted⟩
      next => exact ih h

theorem exists_iterate_of_arcSearch {current next : Evaluation K n} {budget : Nat} {alpha a : K}
    (h : arcSearch c f b current budget alpha = .ok (some (a, next))) :
    ∃ j < budget, a = (· * c.shrink)^[j] alpha := by
  induction budget generalizing alpha with
  | zero => cases h
  | succ budget ih =>
      obtain ⟨value, -, h⟩ := Except.bind_eq_ok_iff.mp h
      split at h
      next =>
        obtain ⟨gradient, -, h⟩ := Except.bind_eq_ok_iff.mp h
        cases h
        exact ⟨0, Nat.succ_pos budget, rfl⟩
      next =>
        obtain ⟨j, hj, rfl⟩ := ih h
        exact ⟨j + 1, Nat.succ_lt_succ hj, rfl⟩

theorem exists_arcSearch_of_advance {i : Nat} {s t : State K n} {event : Record K n}
    (h : (iteration f b c).advance i s = .ok (some (t, event))) :
    ∃ alpha next,
      arcSearch c f b s.current c.maxBacktracks c.initialStep = .ok (some (alpha, next)) ∧
        t = .reached b i alpha next ∧ event = t.last := by
  obtain ⟨found, hfound, h⟩ := Except.bind_eq_ok_iff.mp h
  obtain ⟨⟨alpha, next⟩, rfl, hmove⟩ := Option.map_eq_some_iff.mp (Except.ok.inj h)
  cases hmove
  exact ⟨alpha, next, Except.mapError_eq_ok_iff.mp hfound, rfl, rfl⟩

theorem exists_found_of_advance {i : Nat} {s t : State K n} {event : Record K n}
    (h : (iteration f b c).advance i s = .ok (some (t, event))) :
    ∃ alpha next, Found f b c s.current alpha next ∧ t = .reached b i alpha next ∧
      event = t.last := by
  obtain ⟨alpha, next, hfound, hmove⟩ := exists_arcSearch_of_advance h
  exact ⟨alpha, next, found_of_arcSearch hfound, hmove⟩

theorem arcSearch_of_gaveUp {i : Nat} {s : State K n}
    (h : (iteration f b c).advance i s = .ok none) :
    arcSearch c f b s.current c.maxBacktracks c.initialStep = .ok none := by
  obtain ⟨found, hfound, h⟩ := Except.bind_eq_ok_iff.mp h
  rw [Except.mapError_eq_ok_iff] at hfound
  rw [hfound, Option.map_eq_none_iff.mp (Except.ok.inj h)]

theorem exists_arcSearch (total : f.Total) (current : Evaluation K n) (budget : Nat) (alpha : K) :
    ∃ found, arcSearch c f b current budget alpha = .ok found := by
  induction budget generalizing alpha with
  | zero => exact ⟨none, rfl⟩
  | succ budget ih =>
      obtain ⟨value, hvalue⟩ := total.value (b.project (current.x - alpha * current.gradient))
      obtain ⟨gradient, hgradient⟩ :=
        total.gradient (b.project (current.x - alpha * current.gradient))
      rw [arcSearch, hvalue]
      dsimp only [bind, Except.bind]
      split
      · rw [hgradient]
        exact ⟨_, rfl⟩
      · exact ih (alpha * c.shrink)

theorem exists_advance (total : f.Total) (i : Nat) (s : State K n) :
    ∃ next, (iteration f b c).advance i s = .ok next := by
  obtain ⟨found, hfound⟩ :=
    exists_arcSearch (b := b) (c := c) total s.current c.maxBacktracks c.initialStep
  dsimp only [iteration]
  rw [hfound]
  exact ⟨_, rfl⟩

end LocalOptimization.Constrained.ProjectedGradient
