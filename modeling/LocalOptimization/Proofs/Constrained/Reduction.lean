import Mathlib
import LocalOptimization.Constrained.Reduction
import LocalOptimization.Proofs.QuasiNewton

/-!
# Runs of a reduction

An outer iteration fails only where its inner run or the objective fails, and never gives up. A
result therefore comes from at least one outer iteration, and the last of them determines it.
-/

namespace LocalOptimization.Constrained.Reduction

variable {K : Type} [Scalar K] {n : Nat} {ε σ : Type}
variable {r : Reduction K n ε} {f : Objective K n ε}

/-- An outer iteration leads from `s` to `t` with this result of the inner run. -/
structure Advances (r : Reduction K n ε) (f : Objective K n ε) (i : Nat) (s t : State K n)
    (inner : QuasiNewton.Solution K n) : Prop where
  minimized : QuasiNewton.minimizeUnobserved (r.surrogate s.parameter s.multipliers) s.last.x
    (r.innerConfig s.parameter) = .ok inner
  objective : f.value t.last.x = .ok t.last.objective
  iteration : t.last.iteration = i
  x : t.last.x = inner.final.x
  measure : t.last.measure = r.measure s.parameter t.last.x
  usedParameter : t.last.parameter = s.parameter
  innerIterations : t.last.innerIterations = inner.iterations
  innerStatus : t.last.innerStatus = some inner.status
  parameter : t.parameter = r.nextParameter s.parameter
  multipliers : t.multipliers = r.updateMultipliers s.parameter t.last.x s.multipliers

theorem exists_advances {i : Nat} {s : State K n} {inner : QuasiNewton.Solution K n} {objective : K}
    (minimized : QuasiNewton.minimizeUnobserved (r.surrogate s.parameter s.multipliers) s.last.x
      (r.innerConfig s.parameter) = .ok inner)
    (hobjective : f.value inner.final.x = .ok objective) : ∃ t, r.Advances f i s t inner := by
  refine ⟨{
    last := {
      iteration := i, x := inner.final.x, objective
      measure := r.measure s.parameter inner.final.x, parameter := s.parameter
      innerIterations := inner.iterations, innerStatus := some inner.status }
    parameter := r.nextParameter s.parameter
    multipliers := r.updateMultipliers s.parameter inner.final.x s.multipliers }, ?_⟩
  exact ⟨minimized, hobjective, rfl, rfl, rfl, rfl, rfl, rfl, rfl, rfl⟩

theorem advance_eq_ok_iff {i : Nat} {s : State K n} {next : Option (State K n × Record K n)} :
    r.advance f i s = .ok next ↔ ∃ t inner, next = some (t, t.last) ∧ r.Advances f i s t inner := by
  constructor
  · intro h
    obtain ⟨inner, hinner, h⟩ := Except.bind_eq_ok_iff.mp h
    obtain ⟨objective, hobjective, h⟩ := Except.bind_eq_ok_iff.mp h
    cases h
    exact ⟨_, inner, rfl, Except.mapError_eq_ok_iff.mp hinner,
      Except.mapError_eq_ok_iff.mp hobjective, rfl, rfl, rfl, rfl, rfl, rfl, rfl, rfl⟩
  · rintro ⟨⟨⟨i, x, objective, measure, parameter, innerIterations, innerStatus⟩, next,
      multipliers⟩, inner, rfl, advances⟩
    obtain ⟨hinner, hobjective, hi, hx, hmeasure, hused, hlength, hstatus, hparameter,
      hmultipliers⟩ := advances
    dsimp only at *
    subst hi hx hmeasure hused hlength hstatus hparameter hmultipliers
    rw [advance, Except.bind_eq_ok_iff]
    refine ⟨inner, Except.mapError_eq_ok_iff.mpr hinner, ?_⟩
    exact Except.bind_eq_ok_iff.mpr ⟨objective, Except.mapError_eq_ok_iff.mpr hobjective, rfl⟩

theorem advance_eq_some_iff {i : Nat} {s t : State K n} {event : Record K n} :
    r.advance f i s = .ok (some (t, event)) ↔
      event = t.last ∧ ∃ inner, r.Advances f i s t inner := by
  rw [advance_eq_ok_iff]
  constructor
  · rintro ⟨t', inner, hnext, advances⟩
    cases hnext
    exact ⟨rfl, inner, advances⟩
  · rintro ⟨rfl, inner, advances⟩
    exact ⟨t, inner, rfl, advances⟩

theorem advance_ne_none {i : Nat} {s : State K n} : r.advance f i s ≠ .ok none := by
  intro h
  obtain ⟨t, inner, hnext, -⟩ := advance_eq_ok_iff.mp h
  cases hnext

theorem advance_eq_error_iff {i : Nat} {s : State K n} {e : Error K ε} :
    r.advance f i s = .error e ↔
      (∃ cause, e = .inner cause ∧
        QuasiNewton.minimizeUnobserved (r.surrogate s.parameter s.multipliers) s.last.x
          (r.innerConfig s.parameter) = .error cause) ∨
      ∃ inner cause, e = .objective cause ∧
        QuasiNewton.minimizeUnobserved (r.surrogate s.parameter s.multipliers) s.last.x
          (r.innerConfig s.parameter) = .ok inner ∧ f.value inner.final.x = .error cause := by
  rw [advance, Except.bind_eq_error_iff, Except.mapError_eq_error_iff]
  constructor
  · rintro (⟨cause, hcause, rfl⟩ | ⟨inner, hinner, h⟩)
    · exact .inl ⟨cause, rfl, hcause⟩
    · rcases Except.bind_eq_error_iff.mp h with hobjective | ⟨objective, -, h⟩
      · obtain ⟨cause, hcause, rfl⟩ := Except.mapError_eq_error_iff.mp hobjective
        exact .inr ⟨inner, cause, rfl, Except.mapError_eq_ok_iff.mp hinner, hcause⟩
      · cases h
  · rintro (⟨cause, rfl, hcause⟩ | ⟨inner, cause, rfl, hinner, hcause⟩)
    · exact .inl ⟨cause, hcause, rfl⟩
    · refine .inr ⟨inner, Except.mapError_eq_ok_iff.mpr hinner, ?_⟩
      have hobjective := Except.mapError_eq_error_iff (f := Error.objective (K := K)).mpr
        ⟨cause, hcause, rfl⟩
      exact Except.bind_eq_error_iff.mpr (.inl hobjective)

theorem Advances.evaluates {i : Nat} {s t : State K n} {inner : QuasiNewton.Solution K n}
    (advances : r.Advances f i s t inner) :
    (r.surrogate s.parameter s.multipliers).Evaluates { inner.final with x := t.last.x } := by
  rw [advances.x]
  exact (QuasiNewton.evaluates_of_minimizeUnobserved advances.minimized).1

theorem Advances.norm_lt {i : Nat} {s t : State K n} {inner : QuasiNewton.Solution K n}
    {g : Vector K n} (advances : r.Advances f i s t inner)
    (hgradient : (r.surrogate s.parameter s.multipliers).gradient t.last.x = .ok g)
    (converged : t.last.innerStatus = some .converged) :
    norm g < (r.innerConfig s.parameter).gradientTol := by
  have hstatus : inner.status = .converged :=
    Option.some.inj (advances.innerStatus.symm.trans converged)
  rw [← Except.ok.inj (advances.evaluates.gradient.symm.trans hgradient)]
  exact (QuasiNewton.evaluates_of_minimizeUnobserved advances.minimized).2 hstatus

section Start

variable {x : Vector K n}

theorem start_eq_ok_iff {s : State K n} :
    r.start f x = .ok s ↔ allFinite x = true ∧ ∃ objective, f.value x = .ok objective ∧
      f.isFiniteAt x objective = true ∧
        s = { last := { iteration := 0, x, objective, measure := r.measure r.initialParameter x
                        parameter := r.initialParameter, innerIterations := 0, innerStatus := none }
              parameter := r.initialParameter, multipliers := r.initialMultipliers } := by
  constructor
  · intro h
    rw [start] at h
    split at h
    · cases h
    · next hpoint =>
        obtain ⟨objective, hobjective, h⟩ := Except.bind_eq_ok_iff.mp h
        rw [Except.mapError_eq_ok_iff] at hobjective
        split at h
        · cases h
        · next hfinite =>
            cases h
            exact ⟨by simpa using hpoint, objective, hobjective, by simpa using hfinite, rfl⟩
  · rintro ⟨hpoint, objective, hobjective, hfinite, rfl⟩
    rw [start, hobjective]
    simp only [Except.mapError, bind, Except.bind, hpoint, hfinite]
    rfl

def begin (historyLimit : Option Nat) (s : State K n) : Progress (State K n) (Record K n) where
  state := s
  iterations := 0
  history := .empty historyLimit

variable {budget : Nat} {limit : Option Nat} {o : Observer σ (Record K n)} {w : σ}

theorem minimize_of_start {s : State K n} (h : r.start f x = .ok s) :
    r.minimize f x budget limit o w =
      (((r.iteration f).continueFor o budget (begin limit s) w).1.map r.solution,
        ((r.iteration f).continueFor o budget (begin limit s) w).2) := by
  rw [minimize, h]
  rfl

theorem minimize_of_start_error {e : Error K ε} (h : r.start f x = .error e) :
    r.minimize f x budget limit o w = (.error e, w) := by
  rw [minimize, h]

theorem converged_of_start {s : State K n} (h : r.start f x = .ok s) :
    (r.iteration f).converged s = false := by
  obtain ⟨-, -, -, -, rfl⟩ := start_eq_ok_iff.mp h
  rfl

end Start

section Runs

variable {x : Vector K n} {budget : Nat} {limit : Option Nat} {o : Observer σ (Record K n)} {w : σ}
variable {first : State K n} {events : List (Record K n)} {ending : Ending (State K n) (Record K n)}

/-- A result comes from a chain of outer iterations. An observer that also keeps the events keeps
those of the chain. -/
theorem exists_outcome {sol : Solution K n} (h : (r.minimize f x budget limit o w).1 = .ok sol) :
    ∃ first events ending, r.start f x = .ok first ∧
      (r.iteration f).Outcome budget (begin limit first) events ending ∧ r.solution ending = sol ∧
      r.minimize f x budget limit o.logging (w, #[]) =
        (.ok sol, (r.minimize f x budget limit o w).2, events.toArray) := by
  cases hstart : r.start f x with
  | error e =>
      rw [minimize_of_start_error hstart] at h
      cases h
  | ok first =>
      rw [minimize_of_start hstart] at h
      obtain ⟨ending, hending, rfl⟩ := Except.map_eq_ok_iff.mp h
      obtain ⟨hresult, hobserver⟩ :=
        (r.iteration f).continueFor_logging o budget (begin limit first) w #[]
      rw [hending] at hresult
      obtain ⟨events, outcome, hlog⟩ := Iteration.exists_outcome (Prod.ext hresult rfl)
      refine ⟨first, events, ending, rfl, outcome, rfl, ?_⟩
      rw [minimize_of_start hstart, minimize_of_start hstart, hresult]
      rw [Observer.after_logging] at hlog
      have hevents := congrArg Prod.snd hlog
      exact Prod.ext rfl (Prod.ext hobserver (hevents.trans (by simp)))

theorem status_ne_stopped (passes : ∀ w event, (o.observe w event).1 = false) {sol : Solution K n}
    (h : (r.minimize f x budget limit o w).1 = .ok sol) : sol.status ≠ .stopped := by
  cases hstart : r.start f x with
  | error e =>
      rw [minimize_of_start_error hstart] at h
      cases h
  | ok first =>
      rw [minimize_of_start hstart] at h
      obtain ⟨ending, hending, rfl⟩ := Except.map_eq_ok_iff.mp h
      exact Iteration.status_ne_stopped passes hending

theorem events_ne_nil (hstart : r.start f x = .ok first)
    (outcome : (r.iteration f).Outcome budget (begin limit first) events ending)
    (allowed : 0 < budget) : events ≠ [] := by
  rintro rfl
  have hstate : ending.state = first := by
    cases outcome.chain
    rfl
  cases hstatus : ending.status with
  | converged =>
      have hconverged := outcome.converged hstatus
      rw [hstate, converged_of_start hstart] at hconverged
      cases hconverged
  | exhausted =>
      have hlength := (outcome.exhausted hstatus).2
      rw [← hlength] at allowed
      exact absurd allowed (Nat.lt_irrefl 0)
  | gaveUp => exact advance_ne_none (outcome.gaveUp hstatus)
  | stopped => exact outcome.stopped hstatus rfl

theorem chain_invariant {P : State K n → Prop} {Q : Record K n → Prop}
    (step : ∀ i s t inner, P s → r.Advances f i s t inner → P t ∧ Q t.last) {i : Nat}
    {s t : State K n} (chain : (r.iteration f).Chain i s events t) (hs : P s) :
    P t ∧ ∀ event ∈ events, Q event := by
  apply chain.invariant ?_ hs
  intro i s t event hs hadvance
  obtain ⟨rfl, inner, advances⟩ := advance_eq_some_iff.mp hadvance
  exact step i s t inner hs advances

/-- The last outer iteration of a run from `x` with the result `sol`: the run has come to the state
`s` before it, and its inner run returned `inner`. -/
structure LastIteration (r : Reduction K n ε) (f : Objective K n ε) (x : Vector K n)
    (s : State K n) (inner : QuasiNewton.Solution K n) (sol : Solution K n) : Prop where
  reached : ∃ first events, r.start f x = .ok first ∧ (r.iteration f).Chain 0 first events s ∧
    sol.last.iteration = events.length + 1
  advances : r.Advances f sol.last.iteration s {
    last := sol.last
    parameter := r.nextParameter s.parameter
    multipliers := sol.multipliers } inner
  converged : sol.status = .converged → sol.last.measure.value < r.tolerance

/-- With an outer iteration allowed, a result comes from a last one, which begins in a state that
all iterations before it have kept in order. -/
theorem exists_lastIteration {sol : Solution K n}
    (h : (r.minimize f x budget limit o w).1 = .ok sol) (allowed : 0 < budget)
    {P : State K n → Prop} (start : ∀ first, r.start f x = .ok first → P first)
    (step : ∀ i s t inner, P s → r.Advances f i s t inner → P t) :
    ∃ s inner, P s ∧ r.LastIteration f x s inner sol := by
  obtain ⟨first, events, ending, hstart, outcome, rfl, -⟩ := exists_outcome h
  obtain ⟨before, event, s, -, chain, -, hlast⟩ :=
    outcome.chain.exists_last (events_ne_nil hstart outcome allowed)
  obtain ⟨-, inner, advances⟩ := advance_eq_some_iff.mp hlast
  have hinvariant := chain_invariant (Q := fun _ => True)
    (fun i s t inner hs advances => ⟨step i s t inner hs advances, trivial⟩) chain
    (start first hstart)
  have hiteration : ending.state.last.iteration = before.length + 1 := by
    rw [advances.iteration]
    exact congrArg (· + 1) (Nat.zero_add before.length)
  refine ⟨s, inner, hinvariant.1, ⟨first, before, hstart, chain, hiteration⟩, ?_, ?_⟩
  · obtain ⟨hminimized, hobjective, -, hx, hmeasure, hused, hlength, hstatus, -, hmultipliers⟩ :=
      advances
    exact ⟨hminimized, hobjective, rfl, hx, hmeasure, hused, hlength, hstatus, rfl, hmultipliers⟩
  · intro hstatus
    exact of_decide_eq_true (Bool.and_eq_true_iff.mp (outcome.converged hstatus)).2

theorem minimize_of_first_converged {t : State K n} {inner : QuasiNewton.Solution K n}
    (hstart : r.start f x = .ok first) (advances : r.Advances f 1 first t inner)
    (converged : t.last.measure.value < r.tolerance) (allowed : 0 < budget) :
    (r.minimize f x budget limit o w).1 =
      .ok (r.solution {
        state := t, iterations := 1, history := (History.empty limit).push t.last
        status := .converged }) := by
  have hrunning := converged_of_start hstart
  have hadvance := advance_eq_some_iff.mpr ⟨rfl, inner, advances⟩
  have hconverged : (r.iteration f).converged t = true := by
    simp [iteration, advances.iteration, converged]
  obtain ⟨budget, rfl⟩ := Nat.exists_eq_succ_of_ne_zero (Nat.ne_of_gt allowed)
  rw [minimize_of_start hstart]
  cases hobserve : (o.observe w t.last).1 with
  | true =>
      rw [Iteration.continueFor_of_stop hrunning hadvance hobserve]
      simp only [Iteration.statusAtStop, hconverged]
      rfl
  | false =>
      rw [Iteration.continueFor_of_pass hrunning hadvance hobserve]
      cases budget with
      | zero =>
          simp only [Iteration.continueFor, Iteration.statusAtBudget, Iteration.progressTo,
            hconverged]
          rfl
      | succ budget =>
          rw [Iteration.continueFor_of_converged hconverged]
          rfl

variable (budget limit o w) in
theorem exists_minimize_of_stationary {q : QuasiNewton.State K n} (hstart : r.start f x = .ok first)
    (hq : QuasiNewton.start (r.surrogate r.initialParameter r.initialMultipliers)
      (r.innerConfig r.initialParameter) x = .ok q)
    (stationary : q.current.gradientNorm < (r.innerConfig r.initialParameter).gradientTol)
    (met : (r.measure r.initialParameter x).value < r.tolerance) (allowed : 0 < budget) :
    ∃ sol, (r.minimize f x budget limit o w).1 = .ok sol ∧ sol.status = .converged ∧
      sol.last.x = x ∧ sol.last.parameter = r.initialParameter ∧
      sol.last.innerStatus = some .converged ∧
      sol.multipliers = r.updateMultipliers r.initialParameter x r.initialMultipliers := by
  obtain ⟨-, objective, hobjective, -, hfirst⟩ := start_eq_ok_iff.mp hstart
  obtain ⟨-, -, e, he, -, rfl⟩ := QuasiNewton.start_eq_ok_iff.mp hq
  obtain ⟨hx, -, -⟩ := Objective.evaluate_eq_ok_iff.mp he
  obtain ⟨inner, hminimized, hfinal, hstatus⟩ : ∃ inner,
      QuasiNewton.minimizeUnobserved (r.surrogate r.initialParameter r.initialMultipliers) x
        (r.innerConfig r.initialParameter) = .ok inner ∧
      inner.final.x = x ∧ inner.status = .converged :=
    ⟨_, QuasiNewton.minimizeUnobserved_of_stationary hq stationary, hx, rfl⟩
  have hvalue : f.value inner.final.x = .ok objective := by
    rw [hfinal]
    exact hobjective
  obtain ⟨t, advances⟩ : ∃ t, r.Advances f 1 first t inner := by
    refine exists_advances ?_ hvalue
    rw [hfirst]
    exact hminimized
  have htx : t.last.x = x := advances.x.trans hfinal
  have hparameter : first.parameter = r.initialParameter := by rw [hfirst]
  have hmultipliers : first.multipliers = r.initialMultipliers := by rw [hfirst]
  refine ⟨_, minimize_of_first_converged hstart advances ?_ allowed, rfl, htx, ?_,
    advances.innerStatus.trans (congrArg some hstatus), ?_⟩
  · rw [advances.measure, htx, hparameter]
    exact met
  · exact advances.usedParameter.trans hparameter
  · rw [← hparameter, ← hmultipliers, ← htx]
    exact advances.multipliers

theorem mem_events_of_mem_history
    (outcome : (r.iteration f).Outcome budget (begin limit first) events ending)
    {record : Record K n} (h : record ∈ ending.history.toList) : record ∈ events := by
  rw [outcome.history] at h
  rcases History.mem_toList_foldl_push h with hevent | hbefore
  · obtain ⟨event, hmem, rfl⟩ := List.mem_map.mp hevent
    exact hmem
  · cases hbefore

end Runs

end LocalOptimization.Constrained.Reduction
