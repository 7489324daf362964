import Mathlib
import LocalOptimization.Proofs.LineSearch
import LocalOptimization.Proofs.Run
import LocalOptimization.QuasiNewton.Solver

/-!
# What line-search descent returns

The current evaluation of a run is always that of the objective at a point where its value is
finite: the start is checked, and a step is taken only if it is finite. An objective that does not
fail can stop a run only at the start.
-/

namespace LocalOptimization

variable {K : Type} [Scalar K] {n : Nat} {ε σ : Type}

/-- The evaluation is that of the objective, at a point where the value is finite. -/
structure Objective.Evaluates (f : Objective K n ε) (e : Evaluation K n) : Prop where
  value : f.value e.x = .ok e.value
  gradient : f.gradient e.x = .ok e.gradient
  finite : f.isFiniteAt e.x e.value = true

theorem Objective.evaluate_eq_ok_iff {f : Objective K n ε} {x : Vector K n} {e : Evaluation K n} :
    f.evaluate x = .ok e ↔ e.x = x ∧ f.value x = .ok e.value ∧ f.gradient x = .ok e.gradient := by
  constructor
  · intro h
    obtain ⟨value, hvalue, h⟩ := Except.bind_eq_ok_iff.mp h
    obtain ⟨gradient, hgradient, h⟩ := Except.bind_eq_ok_iff.mp h
    cases h
    exact ⟨rfl, hvalue, hgradient⟩
  · rintro ⟨rfl, hvalue, hgradient⟩
    rw [evaluate, hvalue, Except.bind_eq_ok_iff]
    exact ⟨_, rfl, Except.bind_eq_ok_iff.mpr ⟨_, hgradient, rfl⟩⟩

theorem Objective.Total.exists_evaluate {f : Objective K n ε} (total : f.Total) (x : Vector K n) :
    ∃ e, f.evaluate x = .ok e := by
  obtain ⟨value, hvalue⟩ := total.value x
  obtain ⟨gradient, hgradient⟩ := total.gradient x
  exact ⟨{ x, value, gradient }, Objective.evaluate_eq_ok_iff.mpr ⟨rfl, hvalue, hgradient⟩⟩

namespace QuasiNewton

variable {f : Objective K n ε} {c : Config K} {x : Vector K n}

namespace State

@[simp]
theorem current_moveTo (s : State K n) (i : Nat) (alpha : K) (next : Evaluation K n) :
    (s.moveTo i alpha next).1.current = next := by
  rw [moveTo]
  split <;> rfl

theorem exists_step_of_advance {i : Nat} {s t : State K n} {event : Event K n}
    (h : s.advance f c i = .ok (some (t, event))) :
    ∃ step gradient, c.lineSearch.search f s.ray s.initialStep = .ok step ∧
      (step.satisfied || step.decreases s.current.value) = true ∧
      f.gradient (s.ray.point step.alpha) = .ok gradient ∧
      (t, event) = s.moveTo i step.alpha
        { x := s.ray.point step.alpha, value := step.value, gradient } := by
  rw [advance] at h
  obtain ⟨step, hstep, h⟩ := Except.bind_eq_ok_iff.mp h
  split at h
  next haccepted =>
    cases hstored : step.gradient with
    | none =>
        rw [hstored] at h
        obtain ⟨gradient, hgradient, h⟩ := Except.bind_eq_ok_iff.mp h
        have hnext := (Option.some.inj (Except.ok.inj h)).symm
        exact ⟨step, gradient, hstep, haccepted, hgradient, hnext⟩
    | some stored =>
        rw [hstored] at h
        have hgradient := (LineSearch.search_sound hstep).gradient stored hstored
        exact ⟨step, stored, hstep, haccepted, hgradient, (Option.some.inj (Except.ok.inj h)).symm⟩
  next => cases h

theorem exists_event_moveTo (s : State K n) (i : Nat) (alpha : K) (next : Evaluation K n) :
    ∃ stale, (s.moveTo i alpha next).2 = (s.moveTo i alpha next).1.event i alpha stale := by
  rw [moveTo]
  split <;> exact ⟨_, rfl⟩

theorem exists_event_of_advance {i : Nat} {s t : State K n} {event : Event K n}
    (h : s.advance f c i = .ok (some (t, event))) :
    ∃ alpha stale, event = t.event i alpha stale := by
  obtain ⟨step, gradient, -, -, -, hmove⟩ := exists_step_of_advance h
  obtain ⟨stale, hevent⟩ := s.exists_event_moveTo i step.alpha
    { x := s.ray.point step.alpha, value := step.value, gradient }
  rw [← hmove] at hevent
  exact ⟨step.alpha, stale, hevent⟩

theorem advance_eq_none_iff {i : Nat} {s : State K n} :
    s.advance f c i = .ok none ↔ ∃ step, c.lineSearch.search f s.ray s.initialStep = .ok step ∧
      step.satisfied = false ∧ step.decreases s.current.value = false := by
  rw [advance, Except.bind_eq_ok_iff]
  apply exists_congr
  intro step
  apply and_congr_right
  intro _
  rw [← Bool.or_eq_false_iff]
  split
  next haccepted =>
    refine iff_of_false ?_ fun hrejected => Bool.false_ne_true (hrejected.symm.trans haccepted)
    intro h
    cases hstored : step.gradient with
    | none =>
        rw [hstored] at h
        obtain ⟨gradient, -, h⟩ := Except.bind_eq_ok_iff.mp h
        cases h
    | some stored =>
        rw [hstored] at h
        cases h
  next hrejected => exact iff_of_true rfl (Bool.eq_false_iff.mpr hrejected)

theorem evaluates_of_advance {i : Nat} {s t : State K n} {event : Event K n}
    (h : s.advance f c i = .ok (some (t, event))) : f.Evaluates t.current := by
  obtain ⟨step, gradient, hstep, haccepted, hgradient, hmove⟩ := exists_step_of_advance h
  have sound := LineSearch.search_sound hstep
  have hfinite := sound.finite_of_accepted haccepted
  have hcurrent : t.current =
      { x := s.ray.point step.alpha, value := step.value, gradient } := by
    simpa using congrArg (·.1.current) hmove
  rw [hcurrent]
  exact ⟨sound.value hfinite, hgradient, sound.finite hfinite⟩

theorem exists_advance (total : f.Total) (i : Nat) (s : State K n) :
    ∃ next, s.advance f c i = .ok next := by
  obtain ⟨step, hstep⟩ := LineSearch.exists_search (r := s.ray) total c.lineSearch s.initialStep
  obtain ⟨gradient, hgradient⟩ := total.gradient (s.ray.point step.alpha)
  rw [advance, hstep]
  dsimp only [bind, Except.bind]
  split
  · cases hstored : step.gradient with
    | none => exact ⟨_, by simp only [hgradient]; rfl⟩
    | some stored => exact ⟨_, rfl⟩
  · exact ⟨_, rfl⟩

end State

theorem Config.validate_eq_ok_iff :
    c.validate = .ok () ↔ Scalar.isPositive c.gradientTol = true ∧ c.method ≠ .lbfgs 0 ∧
      c.lineSearch.validate = .ok () := by
  rw [validate]
  cases Scalar.isPositive c.gradientTol with
  | false => simp
  | true =>
      by_cases hmethod : c.method = .lbfgs 0
      · simp [hmethod]
      · simp [hmethod, Except.mapError_eq_ok_iff]

theorem Config.validate_gradientTol (hvalid : c.validate = .ok ()) (tolerance : K) :
    ({ c with gradientTol := tolerance } : Config K).validate =
      if Scalar.isPositive tolerance then .ok () else .error .gradientTol := by
  obtain ⟨-, hmethod, hlineSearch⟩ := validate_eq_ok_iff.mp hvalid
  split
  next hpositive => exact validate_eq_ok_iff.mpr ⟨hpositive, hmethod, hlineSearch⟩
  next hpositive => simp [validate, hpositive]

theorem start_eq_ok_iff {s : State K n} :
    start f c x = .ok s ↔
      c.validate = .ok () ∧ allFinite x = true ∧
        ∃ e, f.evaluate x = .ok e ∧ (f.domain x && e.isFinite) = true ∧
          s = { current := e, model := c.method.initial, scaled := false } := by
  constructor
  · intro h
    obtain ⟨⟨⟩, hvalid, h⟩ := Except.bind_eq_ok_iff.mp h
    rw [Except.mapError_eq_ok_iff] at hvalid
    split at h
    · cases h
    · next hpoint =>
        obtain ⟨e, he, h⟩ := Except.bind_eq_ok_iff.mp h
        rw [Except.mapError_eq_ok_iff] at he
        split at h
        · cases h
        · next hfinite =>
            cases h
            exact ⟨hvalid, by simpa using hpoint, e, he, by simpa using hfinite, rfl⟩
  · rintro ⟨hvalid, hpoint, e, he, hfinite, rfl⟩
    rw [start, hvalid, he]
    simp only [Except.mapError, bind, Except.bind, hpoint, hfinite]
    rfl

theorem evaluates_of_start {s : State K n} (h : start f c x = .ok s) : f.Evaluates s.current := by
  obtain ⟨-, -, e, he, hfinite, rfl⟩ := start_eq_ok_iff.mp h
  obtain ⟨rfl, hvalue, hgradient⟩ := Objective.evaluate_eq_ok_iff.mp he
  simp only [Evaluation.isFinite, Bool.and_eq_true] at hfinite
  exact ⟨hvalue, hgradient, Bool.and_eq_true_iff.mpr ⟨hfinite.1, hfinite.2.1⟩⟩

theorem eq_of_start_eq_error (total : f.Total) {e : Error ε} (h : start f c x = .error e) :
    (∃ cause, c.validate = .error cause ∧ e = .invalidConfig cause) ∨
      (c.validate = .ok () ∧ e = .nonFiniteStart) := by
  rcases Except.bind_eq_error_iff.mp h with hconfig | ⟨⟨⟩, hvalid, h⟩
  · obtain ⟨cause, hcause, rfl⟩ := Except.mapError_eq_error_iff.mp hconfig
    exact .inl ⟨cause, hcause, rfl⟩
  · refine .inr ⟨Except.mapError_eq_ok_iff.mp hvalid, ?_⟩
    split at h
    · cases h
      rfl
    · obtain ⟨current, hcurrent⟩ := total.exists_evaluate x
      rcases Except.bind_eq_error_iff.mp h with hvalue | ⟨current, -, h⟩
      · rw [hcurrent] at hvalue
        cases hvalue
      · split at h <;> cases h
        rfl

theorem start_eq_invalidConfig_iff {cause : ConfigError} :
    start f c x = .error (.invalidConfig cause) ↔ c.validate = .error cause := by
  rw [start, Except.bind_eq_error_iff, Except.mapError_eq_error_iff]
  constructor
  · rintro (⟨cause', hcause, ⟨⟩⟩ | ⟨⟨⟩, -, h⟩)
    · exact hcause
    · split at h
      · cases h
      · rcases Except.bind_eq_error_iff.mp h with hvalue | ⟨current, -, h⟩
        · obtain ⟨_, -, ⟨⟩⟩ := Except.mapError_eq_error_iff.mp hvalue
        · split at h <;> cases h
  · intro h
    exact .inl ⟨cause, h, rfl⟩

/-- The run from `x` shows these events and so comes to the state `s`. -/
def Reaches (f : Objective K n ε) (c : Config K) (x : Vector K n) (events : List (Event K n))
    (s : State K n) : Prop :=
  ∃ first, start f c x = .ok first ∧ (iteration f c).Chain 0 first events s

theorem Reaches.invariant {P : State K n → Prop} {events : List (Event K n)} {s : State K n}
    (reaches : Reaches f c x events s) (hstart : ∀ first, start f c x = .ok first → P first)
    (step : ∀ i s t event, P s → s.advance f c i = .ok (some (t, event)) → P t) : P s := by
  obtain ⟨first, hfirst, chain⟩ := reaches
  refine (chain.invariant (Q := fun _ => True) ?_ (hstart first hfirst)).1
  intro i s t event hs hadvance
  exact ⟨step i s t event hs (Except.mapError_eq_ok_iff.mp hadvance), trivial⟩

theorem Reaches.evaluates {events : List (Event K n)} {s : State K n}
    (reaches : Reaches f c x events s) : f.Evaluates s.current :=
  reaches.invariant (fun _ => evaluates_of_start)
    fun _ _ _ _ _ hadvance => State.evaluates_of_advance hadvance

theorem Reaches.concat {events : List (Event K n)} {s t : State K n} {event : Event K n}
    (reaches : Reaches f c x events s) (running : (iteration f c).converged s = false)
    (hadvance : s.advance f c (events.length + 1) = .ok (some (t, event))) :
    Reaches f c x (events ++ [event]) t := by
  obtain ⟨first, hstart, chain⟩ := reaches
  refine ⟨first, hstart, Iteration.Chain.append_iff.mpr ⟨s, chain, .cons running ?_ (.nil _ _)⟩⟩
  rw [Nat.zero_add]
  exact Except.mapError_eq_ok_iff.mpr hadvance

section Unobserved

def begin (c : Config K) (s : State K n) : Progress (State K n) (Record K n) where
  state := s
  iterations := 0
  history := (History.empty c.historyLimit).push (s.event 0 0.0 false).record

theorem minimizeUnobserved_of_start {s : State K n} (h : start f c x = .ok s) :
    minimizeUnobserved f x c =
      ((iteration f c).continueFor .silent c.maxIters (begin c s) ()).1.map (solution c) := by
  rw [minimizeUnobserved, minimize, h]
  rfl

theorem minimizeUnobserved_of_start_error {e : Error ε} (h : start f c x = .error e) :
    minimizeUnobserved f x c = .error e := by
  rw [minimizeUnobserved, minimize, h]

theorem evaluates_of_minimizeUnobserved {sol : Solution K n}
    (h : minimizeUnobserved f x c = .ok sol) :
    f.Evaluates sol.final ∧
      (sol.status = .converged → sol.final.gradientNorm < c.gradientTol) := by
  cases hstart : start f c x with
  | error e =>
      rw [minimizeUnobserved_of_start_error hstart] at h
      cases h
  | ok s =>
      rw [minimizeUnobserved_of_start hstart] at h
      obtain ⟨ending, hending, rfl⟩ := Except.map_eq_ok_iff.mp h
      obtain ⟨events, outcome, -⟩ := Iteration.exists_outcome (Prod.ext hending rfl)
      have hinvariant := outcome.chain.invariant
        (P := fun s => f.Evaluates s.current) (Q := fun _ => True) ?_ (evaluates_of_start hstart)
      · refine ⟨hinvariant.1, ?_⟩
        intro hstatus
        exact of_decide_eq_true (outcome.converged hstatus)
      · intro i s t event _ hadvance
        exact ⟨State.evaluates_of_advance (Except.mapError_eq_ok_iff.mp hadvance), trivial⟩

theorem minimizeUnobserved_eq_error_iff (total : f.Total) {e : Error ε} :
    minimizeUnobserved f x c = .error e ↔ start f c x = .error e := by
  refine ⟨?_, minimizeUnobserved_of_start_error⟩
  intro h
  cases hstart : start f c x with
  | error e' =>
      rw [minimizeUnobserved_of_start_error hstart] at h
      cases h
      rfl
  | ok s =>
      rw [minimizeUnobserved_of_start hstart, Except.map_eq_error_iff,
        Iteration.continueFor_eq_error_iff] at h
      obtain ⟨events, t, -, hadvance⟩ := h
      obtain ⟨cause, hcause, -⟩ := Except.mapError_eq_error_iff.mp hadvance
      obtain ⟨next, hnext⟩ := State.exists_advance (c := c) total _ t
      exact absurd (hnext.symm.trans hcause) nofun

theorem minimizeUnobserved_eq_invalidConfig_iff {cause : ConfigError} :
    minimizeUnobserved f x c = .error (.invalidConfig cause) ↔ c.validate = .error cause := by
  rw [← start_eq_invalidConfig_iff (f := f) (x := x)]
  refine ⟨?_, minimizeUnobserved_of_start_error⟩
  intro h
  cases hstart : start f c x with
  | error e =>
      rw [minimizeUnobserved_of_start_error hstart] at h
      cases h
      rfl
  | ok s =>
      rw [minimizeUnobserved_of_start hstart, Except.map_eq_error_iff,
        Iteration.continueFor_eq_error_iff] at h
      obtain ⟨events, t, -, hadvance⟩ := h
      obtain ⟨_, -, ⟨⟩⟩ := Except.mapError_eq_error_iff.mp hadvance

theorem minimizeUnobserved_of_stationary {s : State K n} (h : start f c x = .ok s)
    (stationary : s.current.gradientNorm < c.gradientTol) :
    minimizeUnobserved f x c = .ok (solution c { begin c s with status := .converged }) := by
  have hconverged : (iteration f c).converged (begin c s).state = true := decide_eq_true stationary
  rw [minimizeUnobserved_of_start h]
  cases c.maxIters with
  | zero => rw [Iteration.continueFor, Iteration.statusAtBudget, if_pos hconverged]; rfl
  | succ budget => rw [Iteration.continueFor_of_converged hconverged]; rfl

end Unobserved

end QuasiNewton

end LocalOptimization
