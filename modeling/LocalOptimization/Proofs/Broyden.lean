import LocalOptimization.Broyden.Solver
import LocalOptimization.Proofs.Except

/-!
# Steps of Broyden's method

An iteration moves to a trial along the step of a Jacobian, at which the residuals were evaluated
and have decreased sufficiently.
-/

namespace LocalOptimization.Broyden

variable {K : Type} [Scalar K] {n : Nat} {ε : Type}
variable {f : System K n ε} {c : Config K} {x : Vector K n}

structure Config.Valid (c : Config K) : Prop where
  residualTol : Scalar.isPositive c.residualTol = true
  allowed : 0 < c.maxIters
  sufficientDecrease : Scalar.inOpenUnit c.sufficientDecrease = true
  shrink : Scalar.inOpenUnit c.shrink = true
  trialAllowed : 0 < c.maxBacktracks

theorem Config.validate_eq_ok_iff : c.validate = .ok () ↔ c.Valid := by
  constructor
  · intro h
    rw [validate] at h
    split at h
    · cases h
    next htol =>
      split at h
      · cases h
      next hallowed =>
        split at h
        next hbacktracking =>
          simp only [Bool.and_eq_true, bne_iff_ne] at hbacktracking
          exact ⟨by simpa using htol, Nat.pos_of_ne_zero hallowed, hbacktracking.1.1,
            hbacktracking.1.2, Nat.pos_of_ne_zero hbacktracking.2⟩
        · cases h
  · rintro ⟨htol, hallowed, hdecrease, hshrink, htrial⟩
    simp [validate, htol, hdecrease, hshrink, Nat.ne_of_gt hallowed, Nat.ne_of_gt htrial]

omit [Scalar K] in
theorem evaluate_eq_ok_iff {i : Iterate K n} :
    evaluate f x = .ok i ↔ i.x = x ∧ f x = .ok i.residuals := by
  constructor
  · intro h
    obtain ⟨residuals, hresiduals, h⟩ := Except.bind_eq_ok_iff.mp h
    cases h
    exact ⟨rfl, hresiduals⟩
  · rintro ⟨rfl, hresiduals⟩
    exact Except.bind_eq_ok_iff.mpr ⟨_, hresiduals, rfl⟩

theorem start_eq_ok_iff {s : State K n} :
    start f c x = .ok s ↔ c.Valid ∧ allFinite x = true ∧
      f x = .ok s.current.residuals ∧ Scalar.isFinite s.current.residualNorm = true ∧
        differenced f x = .ok s.model ∧ s.current.x = x ∧ s.fresh = true := by
  rw [start, ← Config.validate_eq_ok_iff]
  constructor
  · intro h
    obtain ⟨⟨⟩, hvalid, h⟩ := Except.bind_eq_ok_iff.mp h
    rw [Except.mapError_eq_ok_iff] at hvalid
    split at h
    · cases h
    next hpoint =>
      obtain ⟨current, hcurrent, h⟩ := Except.bind_eq_ok_iff.mp h
      obtain ⟨rfl, hresiduals⟩ := evaluate_eq_ok_iff.mp (Except.mapError_eq_ok_iff.mp hcurrent)
      split at h
      · cases h
      next hfinite =>
        obtain ⟨model, hmodel, h⟩ := Except.bind_eq_ok_iff.mp h
        rw [Except.mapError_eq_ok_iff] at hmodel
        cases h
        exact ⟨hvalid, by simpa using hpoint, hresiduals, by simpa using hfinite, hmodel, rfl, rfl⟩
  · rcases s with ⟨current, model, fresh⟩
    rintro ⟨hvalid, hpoint, hresiduals, hfinite, hmodel, hx, hfresh⟩
    dsimp only at hresiduals hfinite hmodel hx hfresh
    have hcurrent : evaluate f x = .ok current := evaluate_eq_ok_iff.mpr ⟨hx, hresiduals⟩
    rw [hvalid, hcurrent, hmodel, hfresh]
    simp only [Except.mapError, bind, Except.bind, hpoint, hfinite]
    rfl

theorem backtrack_congr {c' : Config K} (hdecrease : c'.sufficientDecrease = c.sufficientDecrease)
    (hshrink : c'.shrink = c.shrink) : backtrack f c' = backtrack f c := by
  have hdecreases : decreases (n := n) c' = decreases c := by
    funext current trial alpha
    rw [decreases, decreases, hdecrease]
  funext current d budget alpha
  induction budget generalizing alpha with
  | zero => rfl
  | succ budget ih => simp only [backtrack, hdecreases, hshrink, ih]

theorem of_backtrack {current next : Iterate K n} {d : Vector K n} {budget : Nat} {alpha a : K}
    (h : backtrack f c current d budget alpha = .ok (some (a, next))) :
    f next.x = .ok next.residuals ∧ decreases c current next a = true := by
  induction budget generalizing alpha with
  | zero => cases h
  | succ budget ih =>
      obtain ⟨trial, htrial, h⟩ := Except.bind_eq_ok_iff.mp h
      split at h
      next hdecreases =>
        cases h
        obtain ⟨hx, hresiduals⟩ := evaluate_eq_ok_iff.mp htrial
        exact ⟨hx ▸ hresiduals, hdecreases⟩
      next => exact ih h

theorem of_attempt {current next : Iterate K n} {model : Secant K n} {a : K}
    (h : attempt f c current model = .ok (some (a, next))) :
    f next.x = .ok next.residuals ∧ decreases c current next a = true := by
  rw [attempt] at h
  split at h
  · exact of_backtrack h
  · cases h

namespace State

variable {s t : State K n}

theorem of_findStep {a : Accepted K n} (h : s.findStep f c = .ok (some a)) :
    f a.next.x = .ok a.next.residuals ∧ decreases c s.current a.next a.alpha = true := by
  obtain ⟨found, hfound, h⟩ := Except.bind_eq_ok_iff.mp h
  rcases found with _ | ⟨alpha, next⟩
  · dsimp only at h
    split at h
    · cases h
    · obtain ⟨model, -, h⟩ := Except.bind_eq_ok_iff.mp h
      obtain ⟨again, hagain, h⟩ := Except.bind_eq_ok_iff.mp h
      obtain ⟨⟨alpha, next⟩, rfl, rfl⟩ := Option.map_eq_some_iff.mp (Except.ok.inj h)
      exact of_attempt hagain
  · cases h
    exact of_attempt hfound

theorem exists_accepted_of_advance {i : Nat} {event : Event K n}
    (h : s.advance f c i = .ok (some (t, event))) :
    ∃ a, s.findStep f c = .ok (some a) ∧ t = s.moveTo a ∧
      event = t.event i a.alpha a.refreshed := by
  obtain ⟨found, hfound, h⟩ := Except.bind_eq_ok_iff.mp h
  obtain ⟨a, rfl, hmove⟩ := Option.map_eq_some_iff.mp (Except.ok.inj h)
  cases hmove
  exact ⟨a, hfound, rfl, rfl⟩

end State

end LocalOptimization.Broyden
