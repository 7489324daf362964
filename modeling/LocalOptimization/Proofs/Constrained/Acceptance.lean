import Mathlib
import LocalOptimization.Proofs.Constrained.Schedule
import LocalOptimization.Proofs.Double.Product

/-!
# Refused parameters

A method checks its parameters before it starts, those of the inner runs included. The barrier then
changes the latter: it multiplies the gradient tolerance by `max(t, 1)`. The product is always
positive, but nothing bounds `t`, and once the product is infinite the inner run refuses it.
-/

namespace LocalOptimization.Constrained

variable {K : Type} [Scalar K] {n : Nat} {ε σ : Type}

/-- Parameters are refused, by the method or by its inner run. -/
inductive Error.IsRefusal : Error K ε → Prop where
  | method (cause : ConfigError) : IsRefusal (.invalidConfig cause)
  | inner (cause : QuasiNewton.ConfigError) : IsRefusal (.inner (.invalidConfig cause))

namespace Reduction

variable {r : Reduction K n ε} {f : Objective K n ε} {x : Vector K n} {budget : Nat}
variable {limit : Option Nat} {o : Observer σ (Record K n)} {w : σ} {e : Error K ε}

theorem not_isRefusal_of_start (h : r.start f x = .error e) : ¬ e.IsRefusal := by
  rw [start] at h
  split at h
  · cases h
    rintro ⟨⟩
  · rcases Except.bind_eq_error_iff.mp h with hobjective | ⟨objective, -, h⟩
    · obtain ⟨cause, -, rfl⟩ := Except.mapError_eq_error_iff.mp hobjective
      rintro ⟨⟩
    · split at h <;> cases h
      rintro ⟨⟩

theorem advance_eq_refusal_iff {i : Nat} {s : State K n} (refusal : e.IsRefusal) :
    r.advance f i s = .error e ↔
      ∃ cause, e = .inner (.invalidConfig cause) ∧
        (r.innerConfig s.parameter).validate = .error cause := by
  rw [advance_eq_error_iff]
  constructor
  · rintro (⟨cause, rfl, h⟩ | ⟨inner, cause, rfl, -, -⟩)
    · cases refusal with
      | inner cause => exact ⟨cause, rfl, QuasiNewton.minimizeUnobserved_eq_invalidConfig_iff.mp h⟩
    · cases refusal
  · rintro ⟨cause, rfl, h⟩
    exact .inl ⟨_, rfl, QuasiNewton.minimizeUnobserved_eq_invalidConfig_iff.mpr h⟩

/-- A run refuses parameters where it comes to an outer iteration whose inner run does. -/
theorem minimize_eq_refusal_iff (refusal : e.IsRefusal) :
    (r.minimize f x budget limit o w).1 = .error e ↔
      ∃ first events s cause, r.start f x = .ok first ∧
        (r.iteration f).Continues o budget 0 first w events s ∧
          e = .inner (.invalidConfig cause) ∧
            (r.innerConfig s.parameter).validate = .error cause := by
  cases hstart : r.start f x with
  | error e' =>
      rw [minimize_of_start_error hstart]
      refine iff_of_false ?_ ?_
      · rintro ⟨⟩
        exact not_isRefusal_of_start hstart refusal
      · rintro ⟨first, events, s, cause, ⟨⟩, -⟩
  | ok first =>
      rw [minimize_eq_error_iff hstart]
      simp only [advance_eq_refusal_iff refusal]
      constructor
      · rintro ⟨events, s, continues, cause, he, hcause⟩
        exact ⟨first, events, s, cause, rfl, continues, he, hcause⟩
      · rintro ⟨_, events, s, cause, ⟨⟩, continues, he, hcause⟩
        exact ⟨events, s, continues, cause, he, hcause⟩

theorem not_isRefusal_of_minimize
    (accepted : ∀ parameter, (r.innerConfig parameter).validate = .ok ())
    (h : (r.minimize f x budget limit o w).1 = .error e) : ¬ e.IsRefusal := by
  intro refusal
  obtain ⟨first, events, s, cause, -, -, -, hcause⟩ := (minimize_eq_refusal_iff refusal).mp h
  cases (accepted s.parameter).symm.trans hcause

end Reduction

namespace Barrier

variable {f : Objective Float n ε} {c : ConstraintSet Float n} {x : Vector Float n}
variable {config : Config Float} {o : Observer σ (Record Float n)} {w : σ}

/-- The gradient tolerance of the inner run in the outer iteration `k`. -/
def Config.innerTol (config : Config Float) (k : Nat) : Float :=
  config.inner.gradientTol * Scalar.max (config.schedule k) 1.0

/-- From a start in the interior the run comes to an outer iteration whose inner run would have an
infinite gradient tolerance. -/
def Overflows (f : Objective Float n ε) (c : ConstraintSet Float n) (x : Vector Float n)
    (config : Config Float) (o : Observer σ (Record Float n)) (w : σ) : Prop :=
  (checkStart c x : Except (Error Float ε) Unit) = .ok () ∧
    ∃ first events s, (reduction f c config).start f x = .ok first ∧
      ((reduction f c config).iteration f).Continues o config.maxOuterIters 0 first w events s ∧
        (config.innerTol (events.length + 1)).isFinite = false

theorem validate_innerConfig (valid : config.Valid) {k : Nat} {t : Float}
    (ht : t = config.schedule k) {cause : QuasiNewton.ConfigError} :
    ((reduction f c config).innerConfig t).validate = .error cause ↔
      cause = .gradientTol ∧ (config.innerTol k).isFinite = false := by
  have hpositive := (QuasiNewton.Config.validate_eq_ok_iff.mp valid.innerValid).1
  rw [Scalar.isPositive, Bool.and_eq_true_iff, decide_eq_true_iff] at hpositive
  have hscaled : 0.0 < config.innerTol k :=
    Double.mul_pos_of_one_le hpositive.2 (Double.one_le_max _)
  subst ht
  have hvalidate := QuasiNewton.Config.validate_gradientTol valid.innerValid (config.innerTol k)
  have hcheck : Scalar.isPositive (config.innerTol k) = (config.innerTol k).isFinite := by
    rw [Scalar.isPositive, decide_eq_true hscaled, Bool.and_true]
    rfl
  rw [hcheck] at hvalidate
  refine Eq.congr_left hvalidate |>.trans ?_
  cases (config.innerTol k).isFinite <;> simp [eq_comm]

theorem not_isRefusal_of_checkStart {e : Error Float ε} (h : checkStart c x = .error e) :
    ¬ e.IsRefusal := by
  rw [checkStart] at h
  split at h
  · cases h
    rintro ⟨⟩
  · split at h <;> cases h
    rintro ⟨⟩

theorem minimize_eq_refusal_iff (hvalid : config.validate = .ok ()) {e : Error Float ε}
    (refusal : e.IsRefusal) :
    (minimize f c x config o w).1 = .error e ↔
      e = .inner (.invalidConfig .gradientTol) ∧ Overflows f c x config o w := by
  have valid := Config.validate_eq_ok_iff.mp hvalid
  cases hstart : (checkStart c x : Except (Error Float ε) Unit) with
  | error e' =>
      rw [minimize, hvalid, Except.mapError]
      dsimp only [bind, Except.bind]
      rw [hstart]
      refine iff_of_false ?_ ?_
      · rintro ⟨⟩
        exact not_isRefusal_of_checkStart hstart refusal
      · rintro ⟨-, hcheck, -⟩
        cases hstart.symm.trans hcheck
  | ok =>
      obtain ⟨equalities, interior⟩ := checkStart_eq_ok_iff.mp hstart
      rw [minimize_of_valid valid equalities interior, Reduction.minimize_eq_refusal_iff refusal]
      constructor
      · rintro ⟨first, events, s, cause, hfirst, continues, rfl, hcause⟩
        have track := (onTrack_of_chain hfirst continues.chain).1
        obtain ⟨rfl, hinfinite⟩ := (validate_innerConfig valid track.next).mp hcause
        exact ⟨rfl, hstart, first, events, s, hfirst, continues, hinfinite⟩
      · rintro ⟨rfl, -, first, events, s, hfirst, continues, hinfinite⟩
        have track := (onTrack_of_chain hfirst continues.chain).1
        exact ⟨first, events, s, .gradientTol, hfirst, continues, rfl,
          (validate_innerConfig valid track.next).mpr ⟨rfl, hinfinite⟩⟩

end Barrier

/-- No parameters are refused after their check has accepted them, with one exception: the barrier
refuses the gradient tolerance of an inner run exactly where the product with `max(t, 1)` is
infinite. -/
theorem refusal_iff_overflows (f : Objective Float n ε) (c : ConstraintSet Float n)
    (x : Vector Float n) (o : Observer σ (Record Float n)) (w : σ) :
    (∀ config : Penalty.Config Float, config.validate = .ok () →
      ∀ e, (Penalty.minimize f c x config o w).1 = .error e → ¬ e.IsRefusal) ∧
    (∀ config : AugmentedLagrangian.Config Float, config.validate = .ok () →
      ∀ e, (AugmentedLagrangian.minimize f c x config o w).1 = .error e → ¬ e.IsRefusal) ∧
    ∀ config : Barrier.Config Float, config.validate = .ok () → ∀ e : Error Float ε, e.IsRefusal →
      ((Barrier.minimize f c x config o w).1 = .error e ↔
        e = .inner (.invalidConfig .gradientTol) ∧ Barrier.Overflows f c x config o w) := by
  refine ⟨?_, ?_, fun config hvalid e refusal => Barrier.minimize_eq_refusal_iff hvalid refusal⟩
  · intro config hvalid e h
    have valid := Penalty.Config.validate_eq_ok_iff.mp hvalid
    rw [Penalty.minimize_of_valid valid] at h
    exact Reduction.not_isRefusal_of_minimize (r := Penalty.reduction f c config)
      (fun _ => valid.innerValid) h
  · intro config hvalid e h
    have valid := AugmentedLagrangian.Config.validate_eq_ok_iff.mp hvalid
    rw [AugmentedLagrangian.minimize_of_valid valid] at h
    exact Reduction.not_isRefusal_of_minimize (r := AugmentedLagrangian.reduction f c config)
      (fun _ => valid.innerValid) h

section Example

/-- The interval from -1 to 1. -/
def unitInterval : ConstraintSet Float 1 where
  inequalities := [.univariate (· - 1.0) (fun _ => 1.0), .univariate (-· - 1.0) (fun _ => -1.0)]

/-- Parameters that are accepted although the first inner run gets the gradient tolerance
`10 * 1e308`. -/
def steep : Barrier.Config Float where
  inner := { gradientTol := 10.0 }
  initialT := 1e308

theorem validate_steep : steep.validate = .ok () :=
  Except.eq_ok_of_isOk (by decide +kernel)

theorem minimize_steep :
    (Barrier.minimize square unitInterval #v[0.0] steep .silent ()).1 =
      .error (.inner (.invalidConfig .gradientTol)) := by
  have herror : (match (Barrier.minimize square unitInterval #v[0.0] steep .silent ()).1 with
      | .error (.inner (.invalidConfig .gradientTol)) => true
      | _ => false) = true := by decide +kernel
  split at herror
  next h => exact h
  next => cases herror

/-- Accepted parameters are refused in the first inner run, although it would start at the
minimum. -/
theorem refused_at_minimum :
    steep.validate = .ok () ∧
      (Barrier.minimize square unitInterval #v[0.0] steep .silent ()).1 =
        .error (.inner (.invalidConfig .gradientTol)) :=
  ⟨validate_steep, minimize_steep⟩

theorem refusal_iff_overflows_square :
    (∃ e, (Penalty.minimize root atLeastFifth #v[0.0] {} .silent ()).1 = .error e ∧
      ¬ e.IsRefusal) ∧
    (∃ e, (AugmentedLagrangian.minimize root atLeastFifth #v[0.0] {} .silent ()).1 = .error e ∧
      ¬ e.IsRefusal) ∧
    Barrier.Overflows square unitInterval #v[0.0] steep .silent () := by
  obtain ⟨penalty, augmentedLagrangian, -⟩ :=
    refusal_iff_overflows root atLeastFifth #v[0.0] .silent ()
  obtain ⟨-, -, barrier⟩ := refusal_iff_overflows square unitInterval #v[0.0] .silent ()
  refine ⟨?_, ?_, ?_⟩
  · refine (Except.exists_eq_error_of_isOk ?_).imp fun e h => ⟨h, penalty _ ?_ e h⟩
    · decide +kernel
    · exact Except.eq_ok_of_isOk (by decide +kernel)
  · refine (Except.exists_eq_error_of_isOk ?_).imp fun e h => ⟨h, augmentedLagrangian _ ?_ e h⟩
    · decide +kernel
    · exact Except.eq_ok_of_isOk (by decide +kernel)
  · exact ((barrier steep validate_steep _ (.inner _)).mp minimize_steep).2

end Example

end LocalOptimization.Constrained
