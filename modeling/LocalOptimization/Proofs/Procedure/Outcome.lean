import LocalOptimization.Proofs.Except
import LocalOptimization.Proofs.Procedure

/-!
# What a procedure shows and returns

The observer is told the report on the start, if there is one, and then the events of a chain of
iterations. A result is read off the state at the end of the chain and off the records of these
events.
-/

namespace LocalOptimization

variable {S E R ε A σ : Type}

namespace Iteration

variable {m : Iteration S E R ε} {o : Observer σ E}

theorem exists_chain_outcome (m : Iteration S E R ε) (o : Observer σ E) (budget : Nat)
    (p : Progress S R) (w : σ) :
    ∃ events t, m.Chain p.iterations p.state events t ∧
      (m.continueFor o budget p w).2 = o.after w events ∧
      ∀ e, (m.continueFor o budget p w).1 = .ok e → m.Outcome budget p events e := by
  cases h : (m.continueFor o budget p w).1 with
  | error e =>
      obtain ⟨events, t, chain, hafter, -⟩ := m.exists_chain o budget p w
      exact ⟨events, t, chain, hafter, nofun⟩
  | ok e =>
      obtain ⟨events, outcome, hafter⟩ := exists_outcome (Prod.ext h rfl)
      refine ⟨events, e.state, outcome.chain, hafter, ?_⟩
      rintro e' ⟨⟩
      exact outcome

theorem statusAtStop_cases (m : Iteration S E R ε) (s : S) :
    m.statusAtStop s = .converged ∨ m.statusAtStop s = .stopped := by
  rw [statusAtStop]
  split
  · exact .inl rfl
  · exact .inr rfl

theorem statusAtStop_eq_converged_iff {s : S}
    (visible : m.convergenceFirst = true ∨ m.statusAtStop s ≠ .stopped) :
    m.statusAtStop s = .converged ↔ m.converged s = true := by
  cases hfirst : m.convergenceFirst with
  | false => simp [statusAtStop, hfirst] at visible
  | true => simp [statusAtStop, hfirst]

/-- The status tells whether the last state has converged. A stop by the observer hides it, unless
convergence takes precedence. -/
theorem status_eq_converged_iff {budget : Nat} {p : Progress S R} {w : σ} {e : Ending S R}
    (h : (m.continueFor o budget p w).1 = .ok e)
    (visible : m.convergenceFirst = true ∨ e.status ≠ .stopped) :
    e.status = .converged ↔ m.converged e.state = true := by
  refine continueFor_induction (m := m) (o := o) (motive := fun _ _ _ r => ∀ e, r.1 = .ok e →
    m.convergenceFirst = true ∨ e.status ≠ .stopped →
      (e.status = .converged ↔ m.converged e.state = true))
    ?spent ?converged nofun ?gaveUp ?stopped ?passed budget p w e h visible
  case spent =>
    rintro p w e ⟨⟩ -
    simp [statusAtBudget]
  case converged =>
    rintro budget p w hconverged e ⟨⟩ -
    simp [hconverged]
  case gaveUp =>
    rintro budget p w hrunning - e ⟨⟩ -
    simp [hrunning]
  case stopped =>
    rintro budget p w t event - - - e ⟨⟩ visible
    exact statusAtStop_eq_converged_iff visible
  case passed =>
    intro budget p w t event r _ _ _ ih
    exact ih

end Iteration

/-- An observer is told only events that satisfy `P`, and only results that satisfy `Q` are
returned. -/
structure Solver.Reports (solve : Solver E ε A) (P : E → Prop) (Q : A → Prop)
    (o : Observer σ E) (w : σ) : Prop where
  shown : ∀ event ∈ solve.shown o w, P event
  returned : ∀ a, (solve σ o w).1 = .ok a → Q a

theorem Solver.Reports.imp {solve : Solver E ε A} {P P' : E → Prop} {Q Q' : A → Prop}
    {o : Observer σ E} {w : σ} (reports : solve.Reports P Q o w)
    (hP : ∀ event, P event → P' event) (hQ : ∀ a, Q a → Q' a) : solve.Reports P' Q' o w :=
  ⟨fun event h => hP event (reports.shown event h), fun a h => hQ a (reports.returned a h)⟩

namespace Procedure

/-- The report on a start. -/
def reported (p : Procedure S E R ε A) (s : S) : List E :=
  (p.startEvent.map fun report => report s).toList

/-- A run from `first` ends with `e` after these events, which follow the report on the start. -/
structure Outcome (p : Procedure S E R ε A) (first : S) (events : List E) (e : Ending S R) :
    Prop where
  chain : p.iteration.Chain 0 first events e.state
  withinBudget : events.length ≤ p.budget
  iterations : e.iterations = events.length
  history : e.history =
    ((p.reported first ++ events).map p.iteration.record).foldl .push (.empty p.limit)
  converged : p.iteration.convergenceFirst = true ∨ e.status ≠ .stopped →
    (e.status = .converged ↔ p.iteration.converged e.state = true)
  exhausted : e.status = .exhausted → events.length = p.budget
  gaveUp : e.status = .gaveUp → p.iteration.advance (e.iterations + 1) e.state = .ok none
  stopped : e.status = .stopped → p.reported first ++ events ≠ []

variable {p : Procedure S E R ε A} {o : Observer σ E} {w : σ} {first : S}

theorem run_logging (p : Procedure S E R ε A) (o : Observer σ E) (w : σ) :
    p.run _ o.logging (w, #[]) =
      ((p.run σ o w).1, (p.run σ o w).2, (p.run.shown o w).toArray) :=
  (p.follows (fun _ _ _ => True) (fun _ _ _ _ => trivial) (fun _ _ _ _ _ => trivial) o w).logged

theorem run_of_start_error {e : ε} (h : p.start = .error e) : p.run σ o w = (.error e, w) := by
  rw [run, h]

theorem Outcome.of_continueFor {events : List E} {e : Ending S R} {w' : σ}
    (h : (p.iteration.continueFor o p.budget {
      state := first
      iterations := 0
      history := ((p.reported first).map p.iteration.record).foldl .push (.empty p.limit) }
      w').1 = .ok e)
    (outcome : p.iteration.Outcome p.budget {
      state := first
      iterations := 0
      history := ((p.reported first).map p.iteration.record).foldl .push (.empty p.limit) }
      events e) : p.Outcome first events e where
  chain := outcome.chain
  withinBudget := outcome.withinBudget
  iterations := outcome.iterations.trans (Nat.zero_add _)
  history := by rw [outcome.history, List.map_append, List.foldl_append]
  converged := Iteration.status_eq_converged_iff h
  exhausted hstatus := (outcome.exhausted hstatus).2
  gaveUp := outcome.gaveUp
  stopped hstatus := List.append_ne_nil_of_right_ne_nil _ (outcome.stopped hstatus)

theorem Outcome.of_stop {report : S → E} (hreport : p.startEvent = some report) :
    p.Outcome first [] {
      state := first
      iterations := 0
      history := (History.empty p.limit).push (p.iteration.record (report first))
      status := p.iteration.statusAtStop first } where
  chain := .nil _ _
  withinBudget := Nat.zero_le _
  iterations := rfl
  history := by rw [reported, hreport]; rfl
  converged := Iteration.statusAtStop_eq_converged_iff
  exhausted hstatus := by
    rcases p.iteration.statusAtStop_cases first with h | h <;> rw [h] at hstatus <;> cases hstatus
  gaveUp hstatus := by
    rcases p.iteration.statusAtStop_cases first with h | h <;> rw [h] at hstatus <;> cases hstatus
  stopped _ := by rw [reported, hreport]; nofun

theorem exists_after (hstart : p.start = .ok first) (o : Observer σ E) (w : σ) :
    ∃ events t, p.iteration.Chain 0 first events t ∧
      (p.run σ o w).2 = o.after w (p.reported first ++ events) ∧
      ∀ a, (p.run σ o w).1 = .ok a → ∃ e, p.Outcome first events e ∧ p.solution e = a := by
  cases hreport : p.startEvent with
  | none =>
      have hreported : p.reported first = [] := by rw [reported, hreport]; rfl
      obtain ⟨events, t, chain, hafter, houtcome⟩ :=
        p.iteration.exists_chain_outcome o p.budget
          { state := first, iterations := 0, history := .empty p.limit } w
      simp only [run, hstart, hreport, hreported]
      refine ⟨events, t, chain, hafter, ?_⟩
      intro a ha
      obtain ⟨e, he, rfl⟩ := Except.map_eq_ok_iff.mp ha
      exact ⟨e, .of_continueFor (by rw [hreported]; exact he)
        (by rw [hreported]; exact houtcome e he), rfl⟩
  | some report =>
      have hreported : p.reported first = [report first] := by rw [reported, hreport]; rfl
      simp only [run, hstart, hreport]
      cases hobserve : (o.observe w (report first)).1 with
      | true =>
          rw [Iteration.runFrom_of_stop hobserve]
          refine ⟨[], first, .nil _ _, by rw [hreported]; rfl, ?_⟩
          rintro a ⟨⟩
          exact ⟨_, .of_stop hreport, rfl⟩
      | false =>
          rw [Iteration.runFrom_of_pass hobserve]
          obtain ⟨events, t, chain, hafter, houtcome⟩ :=
            p.iteration.exists_chain_outcome o p.budget
              { state := first, iterations := 0
                history := (History.empty p.limit).push (p.iteration.record (report first)) }
              (o.observe w (report first)).2
          refine ⟨events, t, chain, by rw [hreported]; exact hafter, ?_⟩
          intro a ha
          obtain ⟨e, he, rfl⟩ := Except.map_eq_ok_iff.mp ha
          exact ⟨e, .of_continueFor (by rw [hreported]; exact he)
            (by rw [hreported]; exact houtcome e he), rfl⟩

/-- A run that can start shows the report on its start and the events of a chain. If it has a
result, that is the end of the chain. -/
theorem exists_outcome (hstart : p.start = .ok first) (o : Observer σ E) (w : σ) :
    ∃ events t, p.iteration.Chain 0 first events t ∧
      p.run.shown o w = p.reported first ++ events ∧
      ∀ a, (p.run σ o w).1 = .ok a → ∃ e, p.Outcome first events e ∧ p.solution e = a := by
  obtain ⟨events, t, chain, hafter, houtcome⟩ := exists_after hstart o.logging (w, #[])
  rw [run_logging, Observer.after_logging] at hafter
  rw [run_logging] at houtcome
  have hshown := congrArg (·.2.toList) hafter
  exact ⟨events, t, chain, by simpa using hshown, houtcome⟩

theorem exists_outcome_of_run {solve : Solver E ε A} (hrun : p.run = solve) {a : A}
    (h : (solve σ o w).1 = .ok a) :
    ∃ first events e, p.start = .ok first ∧ p.Outcome first events e ∧ p.solution e = a := by
  rw [← hrun] at h
  cases hstart : p.start with
  | error e =>
      rw [run_of_start_error hstart] at h
      cases h
  | ok first =>
      obtain ⟨events, t, -, -, houtcome⟩ := exists_after hstart o w
      obtain ⟨e, outcome, rfl⟩ := houtcome a h
      exact ⟨first, events, e, rfl, outcome, rfl⟩

theorem Outcome.start_or_last {events : List E} {e : Ending S R}
    (outcome : p.Outcome first events e) :
    (events = [] ∧ e.state = first) ∨
      ∃ before event s, events = before ++ [event] ∧
        p.iteration.advance e.iterations s = .ok (some (e.state, event)) := by
  by_cases hevents : events = []
  · have chain := outcome.chain
    rw [hevents] at chain
    cases chain
    exact .inl ⟨hevents, rfl⟩
  · obtain ⟨before, event, s, rfl, -, -, hlast⟩ := outcome.chain.exists_last hevents
    refine .inr ⟨before, event, s, rfl, ?_⟩
    rw [outcome.iterations]
    simpa using hlast

theorem Outcome.history_suffix {events : List E} {e : Ending S R}
    (outcome : p.Outcome first events e) :
    e.history.toList <:+ (p.reported first ++ events).map p.iteration.record := by
  rw [outcome.history]
  exact History.suffix_foldl_push (l := []) (List.suffix_refl [])

/-- Where every iteration relates its report to the one before, the events shown are related one by
one, and the history of a result holds the records of the last of them. -/
theorem isChain_shown {I : Nat → S → E → Prop} {Q : E → E → Prop} {report : S → E}
    (hreport : p.startEvent = some report) (hstart : ∀ s, p.start = .ok s → I 0 s (report s))
    (hstep : ∀ i s t before event, I i s before → p.iteration.converged s = false →
      p.iteration.advance (i + 1) s = .ok (some (t, event)) → I (i + 1) t event ∧ Q before event)
    (o : Observer σ E) (w : σ) :
    (p.run.shown o w).IsChain Q ∧
      ∀ a, (p.run σ o w).1 = .ok a → ∃ e, p.solution e = a ∧
        e.history.toList <:+ (p.run.shown o w).map p.iteration.record := by
  cases hfirst : p.start with
  | error e =>
      have hrun (τ : Type) (o : Observer τ E) (w : τ) : p.run τ o w = (.error e, w) :=
        run_of_start_error hfirst
      simp [Solver.shown, hrun]
  | ok first =>
      obtain ⟨events, t, chain, hshown, houtcome⟩ := exists_outcome hfirst o w
      have hreported : p.reported first = [report first] := by rw [reported, hreport]; rfl
      rw [hshown]
      constructor
      · rw [hreported]
        exact chain.isChain hstep (hstart first hfirst)
      · intro a ha
        obtain ⟨e, outcome, rfl⟩ := houtcome a ha
        exact ⟨e, rfl, outcome.history_suffix⟩

/-- What the start makes true and every iteration keeps holds throughout: of the events shown, of
the state that a result is read off, and of the records in its history. -/
theorem reports {I : S → Prop} {P : E → Prop}
    (hstart : ∀ s, p.start = .ok s → I s ∧ ∀ event ∈ p.reported s, P event)
    (hstep : ∀ i s t event, I s → p.iteration.advance i s = .ok (some (t, event)) →
      I t ∧ P event) (o : Observer σ E) (w : σ) :
    p.run.Reports P (fun a => ∃ e, p.solution e = a ∧ I e.state ∧
      ∀ record ∈ e.history.toList, ∃ event, P event ∧ p.iteration.record event = record) o w := by
  cases hfirst : p.start with
  | error e =>
      have hrun (τ : Type) (o : Observer τ E) (w : τ) : p.run τ o w = (.error e, w) :=
        run_of_start_error hfirst
      refine ⟨?_, ?_⟩
      · simp [Solver.shown, hrun]
      · simp [hrun]
  | ok first =>
      obtain ⟨events, t, chain, hshown, houtcome⟩ := exists_outcome hfirst o w
      obtain ⟨hI, hreported⟩ := hstart first hfirst
      have hevents : ∀ event ∈ p.reported first ++ events, P event := by
        intro event hevent
        rcases List.mem_append.mp hevent with hevent | hevent
        · exact hreported event hevent
        · exact (chain.invariant hstep hI).2 event hevent
      refine ⟨fun event hevent => hevents event (hshown ▸ hevent), ?_⟩
      intro a ha
      obtain ⟨e, outcome, rfl⟩ := houtcome a ha
      refine ⟨e, rfl, (outcome.chain.invariant hstep hI).1, ?_⟩
      intro record hrecord
      rw [outcome.history] at hrecord
      rcases History.mem_toList_foldl_push hrecord with hrecord | hrecord
      · obtain ⟨event, hevent, rfl⟩ := List.mem_map.mp hrecord
        exact ⟨event, hevents event hevent, rfl⟩
      · cases hrecord

end Procedure

end LocalOptimization
