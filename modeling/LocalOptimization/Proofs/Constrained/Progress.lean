import Mathlib
import LocalOptimization.Proofs.Constrained.Methods
import LocalOptimization.Proofs.Univariate
import LocalOptimization.Scalar.Float

/-!
# Errors after the first outer iteration

An inner run takes steps for the value of the surrogate alone, and the next one starts with another
parameter. So it may start where its surrogate, or the gradient of that, is not finite, and this is
an error of the whole run. With an objective that does not fail it is the only one after the first
outer iteration.
-/

namespace LocalOptimization.Constrained

variable {K : Type} [Scalar K] {n : Nat} {ε σ : Type}
variable {f : Objective K n ε} {c : ConstraintSet K n} {x : Vector K n}

namespace Reduction

variable {r : Reduction K n ε}

structure InnerStarts (r : Reduction K n ε) (s : State K n) : Prop where
  config : (r.innerConfig s.parameter).validate = .ok ()
  point : allFinite s.last.x = true
  surrogate : ∃ e, (r.surrogate s.parameter s.multipliers).evaluate s.last.x = .ok e ∧
    ((r.surrogate s.parameter s.multipliers).domain s.last.x && e.isFinite) = true

theorem innerStarts_iff {s : State K n} :
    r.InnerStarts s ↔ ∃ q, QuasiNewton.start (r.surrogate s.parameter s.multipliers)
      (r.innerConfig s.parameter) s.last.x = .ok q := by
  constructor
  · rintro ⟨config, point, e, he, hfinite⟩
    exact ⟨_, QuasiNewton.start_eq_ok_iff.mpr ⟨config, point, e, he, hfinite, rfl⟩⟩
  · rintro ⟨q, hq⟩
    obtain ⟨config, point, e, he, hfinite, -⟩ := QuasiNewton.start_eq_ok_iff.mp hq
    exact ⟨config, point, e, he, hfinite⟩

structure Total (r : Reduction K n ε) (f : Objective K n ε) : Prop where
  objective : f.Total
  surrogate : ∀ parameter multipliers, (r.surrogate parameter multipliers).Total

theorem Total.advance_eq_error_iff (total : r.Total f) {i : Nat} {s : State K n} {e : Error K ε} :
    r.advance f i s = .error e ↔ ∃ cause, e = .inner cause ∧
      QuasiNewton.start (r.surrogate s.parameter s.multipliers) (r.innerConfig s.parameter)
        s.last.x = .error cause := by
  rw [Reduction.advance_eq_error_iff]
  simp only [QuasiNewton.minimizeUnobserved_eq_error_iff (total.surrogate _ _)]
  constructor
  · rintro (h | ⟨inner, cause, -, -, hobjective⟩)
    · exact h
    · obtain ⟨v, hv⟩ := total.objective.value inner.final.x
      rw [hv] at hobjective
      cases hobjective
  · exact .inl

variable {budget : Nat} {limit : Option Nat} {o : Observer σ (Record K n)} {w : σ}
variable {first : State K n}

theorem minimize_eq_error_iff (hstart : r.start f x = .ok first) {e : Error K ε} :
    (r.minimize f x budget limit o w).1 = .error e ↔
      ∃ events t, (r.iteration f).Continues o budget 0 first w events t ∧
        r.advance f (events.length + 1) t = .error e := by
  rw [minimize_of_start hstart, Except.map_eq_error_iff, Iteration.continueFor_eq_error_iff]
  simp only [begin, Nat.zero_add]
  rfl

/-- After a first outer iteration, a run has a result exactly if the inner run can start wherever
the run continues. -/
theorem Total.exists_minimize_iff (total : r.Total f) (hstart : r.start f x = .ok first)
    {next : Option (State K n × Record K n)} (hfirst : r.advance f 1 first = .ok next) :
    (∃ sol, (r.minimize f x budget limit o w).1 = .ok sol) ↔
      ∀ events t, (r.iteration f).Continues o budget 0 first w events t → events ≠ [] →
        r.InnerStarts t := by
  constructor
  · rintro ⟨sol, hsol⟩ events t continues -
    rw [innerStarts_iff]
    cases hinner : QuasiNewton.start (r.surrogate t.parameter t.multipliers)
        (r.innerConfig t.parameter) t.last.x with
    | ok q => exact ⟨q, rfl⟩
    | error cause =>
        have hfail : (r.minimize f x budget limit o w).1 = .error (.inner cause) := by
          apply (minimize_eq_error_iff hstart).mpr
          exact ⟨events, t, continues, total.advance_eq_error_iff.mpr ⟨cause, rfl, hinner⟩⟩
        rw [hsol] at hfail
        cases hfail
  · intro hstarts
    cases hresult : (r.minimize f x budget limit o w).1 with
    | ok sol => exact ⟨sol, rfl⟩
    | error e =>
        obtain ⟨events, t, continues, hfail⟩ := (minimize_eq_error_iff hstart).mp hresult
        cases events with
        | nil =>
            cases continues.chain
            cases hfirst.symm.trans hfail
        | cons event events =>
            obtain ⟨q, hq⟩ := innerStarts_iff.mp (hstarts _ t continues (by simp))
            obtain ⟨cause, -, hcause⟩ := total.advance_eq_error_iff.mp hfail
            cases hq.symm.trans hcause

theorem Total.eq_of_minimize_eq_error (total : r.Total f) (hstart : r.start f x = .ok first)
    {e : Error K ε} (h : (r.minimize f x budget limit o w).1 = .error e) :
    e = .inner .nonFiniteStart ∨ ∃ parameter cause,
      (r.innerConfig parameter).validate = .error cause ∧ e = .inner (.invalidConfig cause) := by
  obtain ⟨events, t, -, hfail⟩ := (minimize_eq_error_iff hstart).mp h
  obtain ⟨cause, rfl, hcause⟩ := total.advance_eq_error_iff.mp hfail
  rcases QuasiNewton.eq_of_start_eq_error (total.surrogate _ _) hcause with
    ⟨refusal, hrefusal, rfl⟩ | ⟨-, rfl⟩
  · exact .inr ⟨t.parameter, refusal, hrefusal, rfl⟩
  · exact .inl rfl

theorem Total.eq_nonFiniteStart_of_minimize_eq_error (total : r.Total f)
    (hstart : r.start f x = .ok first)
    (hconfig : ∀ parameter, (r.innerConfig parameter).validate = .ok ()) {e : Error K ε}
    (h : (r.minimize f x budget limit o w).1 = .error e) : e = .inner .nonFiniteStart := by
  rcases total.eq_of_minimize_eq_error hstart h with he | ⟨parameter, cause, hcause, -⟩
  · exact he
  · cases (hconfig parameter).symm.trans hcause

end Reduction

theorem Penalty.total_reduction (total : f.Total) (config : Config K) :
    (reduction f c config).Total f := by
  refine ⟨total, fun weight _ => ⟨?_, ?_⟩⟩
  · intro y
    obtain ⟨v, hv⟩ := total.value y
    exact ⟨_, Except.bind_eq_ok_iff.mpr ⟨v, hv, rfl⟩⟩
  · intro y
    obtain ⟨g, hg⟩ := total.gradient y
    exact ⟨_, Except.bind_eq_ok_iff.mpr ⟨g, hg, rfl⟩⟩

theorem AugmentedLagrangian.total_reduction (total : f.Total) (config : Config K) :
    (reduction f c config).Total f := by
  refine ⟨total, fun rho m => ⟨?_, ?_⟩⟩
  · intro y
    obtain ⟨v, hv⟩ := total.value y
    exact ⟨_, Except.bind_eq_ok_iff.mpr ⟨v, hv, rfl⟩⟩
  · intro y
    obtain ⟨g, hg⟩ := total.gradient y
    exact ⟨_, Except.bind_eq_ok_iff.mpr ⟨g, hg, rfl⟩⟩

theorem Barrier.total_reduction (total : f.Total) (config : Config K) :
    (reduction f c config).Total f := by
  refine ⟨total, fun t _ => ⟨?_, ?_⟩⟩
  · intro y
    cases hinterior : c.interior y with
    | true =>
        obtain ⟨v, hv⟩ := total.value y
        simp only [reduction, surrogate, hinterior]
        exact ⟨_, Except.bind_eq_ok_iff.mpr ⟨v, hv, rfl⟩⟩
    | false =>
        simp only [reduction, surrogate, hinterior]
        exact ⟨_, rfl⟩
  · intro y
    obtain ⟨g, hg⟩ := total.gradient y
    exact ⟨_, Except.bind_eq_ok_iff.mpr ⟨g, hg, rfl⟩⟩

theorem eq_of_validate_eq_error {inner : QuasiNewton.Config K} (hvalid : inner.validate = .ok ())
    {tolerance : K} {cause : QuasiNewton.ConfigError}
    (h : ({ inner with gradientTol := tolerance } : QuasiNewton.Config K).validate = .error cause) :
    cause = .gradientTol := by
  rw [QuasiNewton.Config.validate_gradientTol hvalid] at h
  split at h <;> cases h
  rfl

/-- Once the first outer iteration is done, a run on an objective that does not fail has a result
exactly if every later inner run it comes to can start; for the barrier this includes that the
scaled tolerance is accepted. There is no other error. -/
theorem exists_minimize_iff_innerStarts (total : f.Total) (o : Observer σ (Record K n)) (w : σ) :
    (∀ (config : Penalty.Config K) first next, config.validate = .ok () →
      (Penalty.reduction f c config).start f x = .ok first →
      (Penalty.reduction f c config).advance f 1 first = .ok next →
      ((∃ sol, (Penalty.minimize f c x config o w).1 = .ok sol) ↔
        ∀ events t, ((Penalty.reduction f c config).iteration f).Continues o config.maxOuterIters
          0 first w events t → events ≠ [] → (Penalty.reduction f c config).InnerStarts t) ∧
      ∀ e, (Penalty.minimize f c x config o w).1 = .error e → e = .inner .nonFiniteStart) ∧
    (∀ (config : AugmentedLagrangian.Config K) first next, config.validate = .ok () →
      (AugmentedLagrangian.reduction f c config).start f x = .ok first →
      (AugmentedLagrangian.reduction f c config).advance f 1 first = .ok next →
      ((∃ sol, (AugmentedLagrangian.minimize f c x config o w).1 = .ok sol) ↔
        ∀ events t, ((AugmentedLagrangian.reduction f c config).iteration f).Continues o
          config.maxOuterIters 0 first w events t → events ≠ [] →
          (AugmentedLagrangian.reduction f c config).InnerStarts t) ∧
      ∀ e, (AugmentedLagrangian.minimize f c x config o w).1 = .error e →
        e = .inner .nonFiniteStart) ∧
    ∀ (config : Barrier.Config K) first next, config.validate = .ok () →
      (Barrier.checkStart c x : Except (Error K ε) Unit) = .ok () →
      (Barrier.reduction f c config).start f x = .ok first →
      (Barrier.reduction f c config).advance f 1 first = .ok next →
      ((∃ sol, (Barrier.minimize f c x config o w).1 = .ok sol) ↔
        ∀ events t, ((Barrier.reduction f c config).iteration f).Continues o config.maxOuterIters
          0 first w events t → events ≠ [] → (Barrier.reduction f c config).InnerStarts t) ∧
      ∀ e, (Barrier.minimize f c x config o w).1 = .error e →
        e = .inner .nonFiniteStart ∨ e = .inner (.invalidConfig .gradientTol) := by
  refine ⟨?_, ?_, ?_⟩
  · intro config first next hvalid hstart hfirst
    have valid := Penalty.Config.validate_eq_ok_iff.mp hvalid
    have hreduction := Penalty.total_reduction (c := c) total config
    rw [Penalty.minimize_of_valid valid]
    refine ⟨hreduction.exists_minimize_iff hstart hfirst, ?_⟩
    intro e he
    exact hreduction.eq_nonFiniteStart_of_minimize_eq_error hstart (fun _ => valid.innerValid) he
  · intro config first next hvalid hstart hfirst
    have valid := AugmentedLagrangian.Config.validate_eq_ok_iff.mp hvalid
    have hreduction := AugmentedLagrangian.total_reduction (c := c) total config
    rw [AugmentedLagrangian.minimize_of_valid valid]
    refine ⟨hreduction.exists_minimize_iff hstart hfirst, ?_⟩
    intro e he
    exact hreduction.eq_nonFiniteStart_of_minimize_eq_error hstart (fun _ => valid.innerValid) he
  · intro config first next hvalid hcheck hstart hfirst
    have valid := Barrier.Config.validate_eq_ok_iff.mp hvalid
    obtain ⟨equalities, interior⟩ := Barrier.checkStart_eq_ok_iff.mp hcheck
    have hreduction := Barrier.total_reduction (c := c) total config
    rw [Barrier.minimize_of_valid valid equalities interior]
    refine ⟨hreduction.exists_minimize_iff hstart hfirst, ?_⟩
    intro e he
    rcases hreduction.eq_of_minimize_eq_error hstart he with he | ⟨t, cause, hcause, rfl⟩
    · exact .inl he
    · -- The parameters of the inner runs were accepted with another gradient tolerance.
      rw [eq_of_validate_eq_error valid.innerValid hcause]
      exact .inr rfl

section Example

/-- The square root, whose gradient is infinite at the origin. -/
def root : Objective Float 1 Empty :=
  .univariate Float.sqrt (fun x => 0.5 / x.sqrt)

/-- The constraint `0.2 ≤ x`. -/
def atLeastFifth : ConstraintSet Float 1 where
  inequalities := [.univariate (0.2 - ·) (fun _ => -1.0)]

theorem total_root : root.Total :=
  Objective.total_univariate _ _

theorem exists_first_iteration {r : Reduction Float 1 Empty} {x : Vector Float 1}
    (h : (r.start root x >>= r.advance root 1).toOption.map (fun _ => ()) = some ()) :
    ∃ first next, r.start root x = .ok first ∧ r.advance root 1 first = .ok next := by
  obtain ⟨next, hnext, -⟩ := Except.toOption_map_eq_some_iff.mp h
  obtain ⟨first, hstart, hadvance⟩ := Except.bind_eq_ok_iff.mp hnext
  exact ⟨first, next, hstart, hadvance⟩

theorem exists_first_iteration_penalty : ∃ first next,
    (Penalty.reduction root atLeastFifth {}).start root #v[0.25] = .ok first ∧
      (Penalty.reduction root atLeastFifth {}).advance root 1 first = .ok next :=
  exists_first_iteration (by decide +kernel)

theorem exists_minimize_iff_innerStarts_root :
    (∃ first, (Penalty.reduction root atLeastFifth {}).start root #v[0.25] = .ok first ∧
      ((∃ sol, (Penalty.minimize root atLeastFifth #v[0.25] {} .silent ()).1 = .ok sol) ↔
        ∀ events t, ((Penalty.reduction root atLeastFifth {}).iteration root).Continues .silent 20
          0 first () events t → events ≠ [] →
          (Penalty.reduction root atLeastFifth {}).InnerStarts t)) ∧
    (∃ config : AugmentedLagrangian.Config Float, ∃ first,
      (AugmentedLagrangian.reduction root atLeastFifth config).start root #v[0.25] = .ok first ∧
      ((∃ sol, (AugmentedLagrangian.minimize root atLeastFifth #v[0.25] config .silent ()).1 =
          .ok sol) ↔
        ∀ events t, ((AugmentedLagrangian.reduction root atLeastFifth config).iteration
          root).Continues .silent config.maxOuterIters 0 first () events t → events ≠ [] →
          (AugmentedLagrangian.reduction root atLeastFifth config).InnerStarts t)) ∧
    ∃ config : Barrier.Config Float, ∃ first,
      (Barrier.reduction root {} config).start root #v[0.25] = .ok first ∧
      ((∃ sol, (Barrier.minimize root {} #v[0.25] config .silent ()).1 = .ok sol) ↔
        ∀ events t, ((Barrier.reduction root {} config).iteration root).Continues .silent
          config.maxOuterIters 0 first () events t → events ≠ [] →
          (Barrier.reduction root {} config).InnerStarts t) := by
  refine ⟨?_, ⟨{ inner := { gradientTol := 2.0 } }, ?_⟩, ⟨{ inner := { gradientTol := 2.0 } }, ?_⟩⟩
  · obtain ⟨first, next, hstart, hfirst⟩ := exists_first_iteration_penalty
    have hiff := (exists_minimize_iff_innerStarts (c := atLeastFifth) (x := #v[0.25]) total_root
      .silent ()).1 {} first next (Except.eq_ok_of_isOk (by decide +kernel)) hstart hfirst
    exact ⟨first, hstart, hiff.1⟩
  · obtain ⟨first, next, hstart, hfirst⟩ := exists_first_iteration
      (r := AugmentedLagrangian.reduction root atLeastFifth { inner := { gradientTol := 2.0 } })
      (x := #v[0.25]) (by decide +kernel)
    have hiff := (exists_minimize_iff_innerStarts (c := atLeastFifth) (x := #v[0.25]) total_root
      .silent ()).2.1 _ first next (Except.eq_ok_of_isOk (by decide +kernel)) hstart hfirst
    exact ⟨first, hstart, hiff.1⟩
  · obtain ⟨first, next, hstart, hfirst⟩ := exists_first_iteration
      (r := Barrier.reduction root {} { inner := { gradientTol := 2.0 } })
      (x := #v[0.25]) (by decide +kernel)
    have hiff := (exists_minimize_iff_innerStarts (c := {}) (x := #v[0.25]) total_root
      .silent ()).2.2 _ first next (Except.eq_ok_of_isOk (by decide +kernel))
      (Barrier.checkStart_eq_ok_iff.mpr ⟨rfl, by decide +kernel⟩) hstart hfirst
    exact ⟨first, hstart, hiff.1⟩

/-- A run fails after its first outer iteration, although the objective does not. -/
theorem error_after_first_iteration :
    root.Total ∧ ({} : Penalty.Config Float).validate = .ok () ∧
      (∃ first next, (Penalty.reduction root atLeastFifth {}).start root #v[0.25] = .ok first ∧
        (Penalty.reduction root atLeastFifth {}).advance root 1 first = .ok next) ∧
      (Penalty.minimize root atLeastFifth #v[0.25] {} .silent ()).1 =
        .error (.inner .nonFiniteStart) := by
  refine ⟨total_root, Except.eq_ok_of_isOk (by decide +kernel), exists_first_iteration_penalty, ?_⟩
  have herror : (match (Penalty.minimize root atLeastFifth #v[0.25] {} .silent ()).1 with
      | .error (.inner .nonFiniteStart) => true
      | _ => false) = true := by decide +kernel
  split at herror
  next h => exact h
  next => cases herror

end Example

end LocalOptimization.Constrained
