import Mathlib
import LocalOptimization.Proofs.Broyden
import LocalOptimization.Proofs.Exact
import LocalOptimization.Proofs.Procedure.Methods
import LocalOptimization.Proofs.Procedure.Outcome
import LocalOptimization.Scalar.Float

/-!
# Steps that are long enough

Every iteration takes the first trial along the step of a Jacobian that decreases the residual norm
sufficiently. A Jacobian that leads nowhere is replaced once, by the one that is differenced at the
iterate, so that a run gives up only where that one leads nowhere.
-/

namespace LocalOptimization.Broyden

variable {K : Type} [Scalar K] {n : Nat} {ε σ : Type}
variable {f : System K n ε} {c : Config K} {x : Vector K n}

/-- The step length after so many trials that were not enough. -/
def Config.stepLength (c : Config K) (rejected : Nat) : K :=
  (· * c.shrink)^[rejected] 1.0

/-- The trial along `d` is evaluated, and it is not enough. -/
def Fails (f : System K n ε) (c : Config K) (current : Iterate K n) (d : Vector K n) (alpha : K) :
    Prop :=
  ∃ trial, evaluate f (current.x + alpha * d) = .ok trial ∧ decreases c current trial alpha = false

/-- The Jacobian leads nowhere: it is singular, its step is not finite, or no trial along the step
is enough. -/
def Blocked (f : System K n ε) (c : Config K) (current : Iterate K n) (model : Secant K n) : Prop :=
  (model.step current.residuals).isRegular = false ∨
    allFinite (model.step current.residuals).x = false ∨
    ∀ j < c.maxBacktracks, Fails f c current (model.step current.residuals).x (c.stepLength j)

/-- The trial at step length `alpha` is the first one along the step of the Jacobian that is
enough. -/
structure Taken (f : System K n ε) (c : Config K) (current : Iterate K n) (model : Secant K n)
    (alpha : K) (next : Iterate K n) : Prop where
  regular : (model.step current.residuals).isRegular = true
  finite : allFinite (model.step current.residuals).x = true
  stepLength : ∃ j < c.maxBacktracks, alpha = c.stepLength j ∧
    ∀ i < j, Fails f c current (model.step current.residuals).x (c.stepLength i)
  x : next.x = current.x + alpha * (model.step current.residuals).x
  residuals : f next.x = .ok next.residuals
  decreases : decreases c current next alpha = true

section Trials

variable {current next : Iterate K n} {d : Vector K n} {model : Secant K n} {alpha a : K}
  {budget : Nat}

theorem fails_of_backtrack (h : backtrack f c current d budget alpha = .ok none) :
    ∀ j < budget, Fails f c current d ((· * c.shrink)^[j] alpha) := by
  induction budget generalizing alpha with
  | zero => simp
  | succ budget ih =>
      obtain ⟨trial, htrial, h⟩ := Except.bind_eq_ok_iff.mp h
      split at h
      · cases h
      next hfails =>
        intro j hj
        cases j with
        | zero => exact ⟨trial, htrial, by simpa using hfails⟩
        | succ j => exact ih h j (Nat.lt_of_succ_lt_succ hj)

theorem taken_of_backtrack (h : backtrack f c current d budget alpha = .ok (some (a, next))) :
    ∃ j < budget, a = (· * c.shrink)^[j] alpha ∧ evaluate f (current.x + a * d) = .ok next ∧
      ∀ i < j, Fails f c current d ((· * c.shrink)^[i] alpha) := by
  induction budget generalizing alpha with
  | zero => cases h
  | succ budget ih =>
      obtain ⟨trial, htrial, h⟩ := Except.bind_eq_ok_iff.mp h
      split at h
      · cases h
        exact ⟨0, Nat.succ_pos budget, rfl, htrial, by simp⟩
      next hfails =>
        obtain ⟨j, hj, ha, hnext, hbefore⟩ := ih h
        refine ⟨j + 1, Nat.succ_lt_succ hj, ha, hnext, ?_⟩
        intro i hi
        cases i with
        | zero => exact ⟨trial, htrial, by simpa using hfails⟩
        | succ i => exact hbefore i (Nat.lt_of_succ_lt_succ hi)

theorem blocked_of_attempt (h : attempt f c current model = .ok none) :
    Blocked f c current model := by
  rw [attempt] at h
  split at h
  · exact .inr (.inr (fails_of_backtrack h))
  next hunusable =>
    rw [Bool.and_eq_true, not_and_or, Bool.not_eq_true, Bool.not_eq_true] at hunusable
    exact hunusable.imp_right .inl

theorem taken_of_attempt (h : attempt f c current model = .ok (some (alpha, next))) :
    Taken f c current model alpha next := by
  obtain ⟨hresiduals, hdecreases⟩ := of_attempt h
  rw [attempt] at h
  split at h
  next husable =>
    obtain ⟨hregular, hfinite⟩ := Bool.and_eq_true_iff.mp husable
    obtain ⟨j, hj, halpha, hnext, hbefore⟩ := taken_of_backtrack h
    obtain ⟨hx, -⟩ := evaluate_eq_ok_iff.mp hnext
    exact ⟨hregular, hfinite, ⟨j, hj, halpha, hbefore⟩, hx, hresiduals, hdecreases⟩
  · cases h

end Trials

namespace State

/-- The residuals are those at the iterate, and the Jacobian of a fresh state is the one that is
differenced there. -/
structure InStep (f : System K n ε) (s : State K n) : Prop where
  residuals : f s.current.x = .ok s.current.residuals
  fresh : s.fresh = true → differenced f s.current.x = .ok s.model

variable {s : State K n}

theorem blocked_of_findStep (inStep : s.InStep f) (h : s.findStep f c = .ok none) :
    ∃ model, differenced f s.current.x = .ok model ∧ Blocked f c s.current model := by
  obtain ⟨found, hfound, h⟩ := Except.bind_eq_ok_iff.mp h
  rcases found with _ | ⟨alpha, next⟩
  · dsimp only at h
    split at h
    next hfresh => exact ⟨s.model, inStep.fresh hfresh, blocked_of_attempt hfound⟩
    next hstale =>
      obtain ⟨model, hmodel, h⟩ := Except.bind_eq_ok_iff.mp h
      obtain ⟨again, hagain, h⟩ := Except.bind_eq_ok_iff.mp h
      obtain rfl := Option.map_eq_none_iff.mp (Except.ok.inj h)
      exact ⟨model, hmodel, blocked_of_attempt hagain⟩
  · cases h

theorem taken_of_findStep (inStep : s.InStep f) {a : Accepted K n}
    (h : s.findStep f c = .ok (some a)) :
    Taken f c s.current a.model a.alpha a.next ∧
      (s.fresh = true ∨ a.refreshed = true → differenced f s.current.x = .ok a.model) ∧
      (a.refreshed = true → s.fresh = false ∧ Blocked f c s.current s.model) := by
  obtain ⟨found, hfound, h⟩ := Except.bind_eq_ok_iff.mp h
  rcases found with _ | ⟨alpha, next⟩
  · dsimp only at h
    split at h
    · cases h
    next hstale =>
      obtain ⟨model, hmodel, h⟩ := Except.bind_eq_ok_iff.mp h
      obtain ⟨again, hagain, h⟩ := Except.bind_eq_ok_iff.mp h
      obtain ⟨⟨alpha, next⟩, rfl, rfl⟩ := Option.map_eq_some_iff.mp (Except.ok.inj h)
      exact ⟨taken_of_attempt hagain, fun _ => hmodel,
        fun _ => ⟨by simpa using hstale, blocked_of_attempt hfound⟩⟩
  · cases h
    exact ⟨taken_of_attempt hfound, fun hfresh => inStep.fresh (by simpa using hfresh), by simp⟩

theorem inStep_of_start (h : start f c x = .ok s) : s.InStep f := by
  obtain ⟨-, -, hresiduals, -, hmodel, rfl, -⟩ := start_eq_ok_iff.mp h
  exact ⟨hresiduals, fun _ => hmodel⟩

theorem inStep_moveTo {a : Accepted K n} (h : f a.next.x = .ok a.next.residuals) :
    (s.moveTo a).InStep f :=
  ⟨h, nofun⟩

end State

/-- The iterate of a report. -/
def Event.iterate (e : Event K n) : Iterate K n where
  x := e.record.x
  residuals := e.residuals

/-- The report `after` follows `before`: the iteration took a step of this Jacobian. In the first
iteration and where it was refreshed the Jacobian is differenced at the iterate. -/
structure Transition (f : System K n ε) (c : Config K) (before after : Event K n)
    (model : Secant K n) : Prop where
  iteration : after.record.iteration = before.record.iteration + 1
  running : ¬ before.record.residualNorm < c.residualTol
  taken : Taken f c before.iterate model after.record.stepLength after.iterate
  finite : Scalar.isFinite after.record.residualNorm = true
  residualNorm : after.record.residualNorm ≤
    (1.0 - c.sufficientDecrease * after.record.stepLength) * before.record.residualNorm
  differenced : before.record.iteration = 0 ∨ after.record.refreshed = true →
    differenced f before.record.x = .ok model
  refreshed : after.record.refreshed = true →
    0 < before.record.iteration ∧ ∃ stale, Blocked f c before.iterate stale

def Follows (f : System K n ε) (c : Config K) (before after : Event K n) : Prop :=
  ∃ model, Transition f c before after model

/-- The report is one on the state after `i` iterations, whose Jacobian is fresh only at the start.
-/
structure State.Reported (f : System K n ε) (i : Nat) (s : State K n) (e : Event K n) : Prop where
  inStep : s.InStep f
  fresh : s.fresh = true ↔ i = 0
  event : ∃ alpha refreshed, e = s.event i alpha refreshed

theorem follows_of_advance {i : Nat} {s t : State K n} {before after : Event K n}
    (reported : s.Reported f i before) (running : (iteration f c).converged s = false)
    (h : (iteration f c).advance (i + 1) s = .ok (some (t, after))) :
    t.Reported f (i + 1) after ∧ Follows f c before after := by
  obtain ⟨alpha, refreshed, rfl⟩ := reported.event
  obtain ⟨a, hfound, rfl, rfl⟩ :=
    State.exists_accepted_of_advance (Except.mapError_eq_ok_iff.mp h)
  obtain ⟨htaken, hdifferenced, hrefreshed⟩ := State.taken_of_findStep reported.inStep hfound
  obtain ⟨hfinite, hdecreases⟩ := Bool.and_eq_true_iff.mp htaken.decreases
  have hlater : (s.moveTo a).fresh = true ↔ i + 1 = 0 := by simp [State.moveTo]
  refine ⟨⟨State.inStep_moveTo htaken.residuals, hlater, a.alpha, a.refreshed, rfl⟩, a.model, ?_⟩
  exact {
    iteration := rfl
    running := of_decide_eq_false running
    taken := htaken
    finite := hfinite
    residualNorm := of_decide_eq_true hdecreases
    differenced := fun hfirst => hdifferenced (hfirst.imp_left reported.fresh.mpr)
    refreshed := fun hstale => by
      obtain ⟨hold, hblocked⟩ := hrefreshed hstale
      refine ⟨Nat.pos_of_ne_zero ?_, s.model, hblocked⟩
      intro hfirst
      exact absurd (reported.fresh.mpr hfirst) (by simp [hold]) }

/-- The events that an observer is told. -/
def shown (f : System K n ε) (x : Vector K n) (c : Config K) (o : Observer σ (Event K n)) (w : σ) :
    List (Event K n) :=
  Solver.shown (fun _ => solve f x c) o w

/-- The law of a run: it shows the report on the start, then reports that each follow the one
before, and its history holds the last of their records. If it gives up, the Jacobian that is
differenced at the returned point leads nowhere. -/
structure Lawful (f : System K n ε) (x : Vector K n) (c : Config K) (o : Observer σ (Event K n))
    (w : σ) : Prop where
  log : solve f x c o.logging (w, #[]) =
    ((solve f x c o w).1, (solve f x c o w).2, (shown f x c o w).toArray)
  head : (shown f x c o w).head? = (start f c x).toOption.map fun s => s.event 0 0.0 true
  follows : (shown f x c o w).IsChain (Follows f c)
  history : ∀ sol, (solve f x c o w).1 = .ok sol →
    sol.history.toList <:+ (shown f x c o w).map Event.record
  gaveUp : ∀ sol, (solve f x c o w).1 = .ok sol → sol.status = .gaveUp →
    f sol.final.x = .ok sol.final.residuals ∧
      ∃ model, differenced f sol.final.x = .ok model ∧ Blocked f c sol.final model

section Run

variable {o : Observer σ (Event K n)} {w : σ} {first : State K n}

theorem solve_of_start_error {e : Error ε} (h : start f c x = .error e) :
    solve f x c o w = (.error e, w) := by
  rw [solve, h]

theorem inStep_of_chain {s t : State K n} {events : List (Event K n)} (inStep : s.InStep f)
    (chain : (iteration f c).Chain 0 s events t) : t.InStep f := by
  refine (chain.invariant (P := State.InStep f) (Q := fun _ => True) ?_ inStep).1
  intro i s t event _ hadvance
  obtain ⟨a, hfound, rfl, -⟩ :=
    State.exists_accepted_of_advance (Except.mapError_eq_ok_iff.mp hadvance)
  exact ⟨State.inStep_moveTo (State.of_findStep hfound).1, trivial⟩

theorem isChain_follows {t : State K n} {events : List (Event K n)}
    (hstart : start f c x = .ok first)
    (chain : (iteration f c).Chain 0 first events t) :
    (first.event 0 0.0 true :: events).IsChain (Follows f c) := by
  obtain ⟨-, -, -, -, -, -, hfresh⟩ := start_eq_ok_iff.mp hstart
  apply chain.isChain (P := fun i s e => s.Reported f i e) (fun _ _ _ _ _ => follows_of_advance)
  exact ⟨State.inStep_of_start hstart, iff_of_true hfresh rfl, 0.0, true, rfl⟩

/-- A run that gives up has found no step with the Jacobian at hand, nor with a fresh one. -/
theorem blocked_of_gaveUp {events : List (Event K n)} {ending : Ending (State K n) (Record K n)}
    (hstart : start f c x = .ok first) (outcome : (procedure f x c).Outcome first events ending)
    (gaveUp : ending.status = .gaveUp) :
    f ending.state.current.x = .ok ending.state.current.residuals ∧
      ∃ model, differenced f ending.state.current.x = .ok model ∧
        Blocked f c ending.state.current model := by
  have inStep := inStep_of_chain (State.inStep_of_start hstart) outcome.chain
  have hadvance := Except.mapError_eq_ok_iff.mp (outcome.gaveUp gaveUp)
  obtain ⟨found, hfound, hnone⟩ := Except.bind_eq_ok_iff.mp hadvance
  obtain rfl := Option.map_eq_none_iff.mp (Except.ok.inj hnone)
  exact ⟨inStep.residuals, State.blocked_of_findStep inStep hfound⟩

theorem lawful (f : System K n ε) (x : Vector K n) (c : Config K) (o : Observer σ (Event K n))
    (w : σ) : Lawful f x c o w := by
  have hlog := (procedure f x c).run_logging o w
  rw [procedure_run] at hlog
  cases hstart : start f c x with
  | error e =>
      have hshown : shown f x c o w = [] := by
        simp [shown, Solver.shown, solve_of_start_error hstart]
      refine ⟨hlog, ?_, ?_, ?_, ?_⟩
      · rw [hshown, hstart]
        rfl
      · rw [hshown]
        exact .nil
      · simp [solve_of_start_error hstart]
      · simp [solve_of_start_error hstart]
  | ok first =>
      obtain ⟨events, t, chain, hshown, houtcome⟩ := (procedure f x c).exists_outcome hstart o w
      rw [procedure_run] at hshown houtcome
      have hevents : shown f x c o w = first.event 0 0.0 true :: events := hshown
      refine ⟨hlog, ?_, ?_, ?_, ?_⟩
      · rw [hevents, hstart]
        rfl
      · rw [hevents]
        exact isChain_follows hstart chain
      · intro sol hsol
        obtain ⟨ending, outcome, rfl⟩ := houtcome sol hsol
        rw [hevents]
        exact outcome.history_suffix
      · intro sol hsol gaveUp
        obtain ⟨ending, outcome, rfl⟩ := houtcome sol hsol
        exact blocked_of_gaveUp hstart outcome gaveUp

end Run

section Exact

variable {f : System ℝ n ε} {c : Config ℝ}

theorem Config.stepLength_eq (c : Config ℝ) (j : Nat) : c.stepLength j = c.shrink ^ j := by
  simp [stepLength, Exact.one_eq, mul_right_iterate]

theorem Follows.residualNorm_lt (valid : c.Valid) {before after : Event ℝ n}
    (follows : Follows f c before after) :
    after.record.residualNorm < before.record.residualNorm := by
  obtain ⟨model, transition⟩ := follows
  obtain ⟨j, -, halpha, -⟩ := transition.taken.stepLength
  have htol := (Exact.isPositive_iff c.residualTol).mp valid.residualTol
  have hnorm : 0 < before.record.residualNorm := htol.trans_le (not_lt.mp transition.running)
  have hshrink := ((Exact.inOpenUnit_iff _).mp valid.shrink).1
  have hdecrease := ((Exact.inOpenUnit_iff _).mp valid.sufficientDecrease).1
  have halphaPos : 0 < after.record.stepLength := by
    rw [halpha, Config.stepLength_eq]
    exact pow_pos hshrink j
  have hshare := mul_pos hdecrease halphaPos
  calc
    after.record.residualNorm
        ≤ (1.0 - c.sufficientDecrease * after.record.stepLength) * before.record.residualNorm :=
          transition.residualNorm
    _ < 1 * before.record.residualNorm :=
          mul_lt_mul_of_pos_right (by rw [Exact.one_eq]; linarith) hnorm
    _ = before.record.residualNorm := one_mul _

end Exact

/-- Every run obeys the law, on doubles and on exact numbers, and where nothing is rounded the
residual norms decrease strictly. -/
theorem every_run_is_lawful :
    (∀ {K : Type} [Scalar K] {n : Nat} {ε σ : Type} (f : System K n ε) (x : Vector K n)
      (c : Config K) (o : Observer σ (Event K n)) (w : σ), Lawful f x c o w) ∧
    (∀ {n : Nat} {ε σ : Type} (f : System ℝ n ε) (x : Vector ℝ n) (c : Config ℝ)
      (o : Observer σ (Event ℝ n)) (w : σ), (shown f x c o w).IsChain fun before after =>
        after.record.residualNorm < before.record.residualNorm) := by
  constructor
  · intro K _ n ε σ f x c o w
    exact lawful f x c o w
  · intro n ε σ f x c o w
    have hlawful := lawful f x c o w
    cases hstart : start f c x with
    | error e =>
        have hhead := hlawful.head
        rw [hstart] at hhead
        rw [List.head?_eq_none_iff.mp hhead]
        exact .nil
    | ok first =>
        exact hlawful.follows.imp fun _ _ follows =>
          follows.residualNorm_lt (start_eq_ok_iff.mp hstart).1

/-- The residual `x² + 1` is nowhere below 1, and the run gives up close to 0. -/
example : (solveUnobserved (fun x : Vector Float 1 => (.ok #v[x[0] * x[0] + 1.0] : Except Empty _))
    #v[1.0] { maxBacktracks := 3 }).toOption.map (fun sol => (sol.status, sol.iterations)) =
      some (.gaveUp, 1) := by
  decide +kernel

end LocalOptimization.Broyden
