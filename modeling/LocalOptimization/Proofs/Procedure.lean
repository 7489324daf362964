import LocalOptimization.Proofs.Run.Stopping

/-!
# Procedures

All methods are procedures: they check their input and set up a first state, run an iteration from
there under the eyes of an observer, and read their result off the ending. What an observer makes of
a run is therefore the same for all of them.
-/

namespace LocalOptimization

variable {S E R ε A σ : Type}

/-- A method with its input, to be run under the eyes of any observer. -/
abbrev Solver (E ε A : Type) : Type 1 :=
  (σ : Type) → Observer σ E → σ → Except ε A × σ

namespace Solver

/-- The events that an observer is told. -/
def shown (solve : Solver E ε A) (o : Observer σ E) (w : σ) : List E :=
  (solve _ o.logging (w, #[])).2.2.toList

/-- An observed run, compared with the one that nobody stops: it shows the first of its events. If
the observer lets them pass, both runs are the same, and if it stops, the run ends with a result at
the event that it stops at. -/
structure Follows (solve : Solver E ε A) (unobserved : Except ε A)
    (EndsAt : List E → E → A → Prop) (o : Observer σ E) (w : σ) : Prop where
  logged : solve _ o.logging (w, #[]) =
    ((solve _ o w).1, (solve _ o w).2, (solve.shown o w).toArray)
  initial : solve.shown o w <+: solve.shown .silent ()
  passed : o.LetsPass w (solve.shown o w) →
    solve.shown o w = solve.shown .silent () ∧ (solve _ o w).1 = unobserved
  stopped : ∀ before event rest, solve.shown o w = before ++ event :: rest →
    o.StopsAt w before event → rest = [] ∧ ∃ a, (solve _ o w).1 = .ok a ∧ EndsAt before event a

theorem Follows.imp {solve : Solver E ε A} {unobserved : Except ε A}
    {EndsAt EndsAt' : List E → E → A → Prop} {o : Observer σ E} {w : σ}
    (follows : solve.Follows unobserved EndsAt o w)
    (himp : ∀ before event a, EndsAt before event a → EndsAt' before event a) :
    solve.Follows unobserved EndsAt' o w := by
  refine ⟨follows.logged, follows.initial, follows.passed, ?_⟩
  intro before event rest hshown stops
  obtain ⟨hrest, a, ha, hends⟩ := follows.stopped before event rest hshown stops
  exact ⟨hrest, a, ha, himp before event a hends⟩

end Solver

/-- What makes up a method with its input. -/
structure Procedure (S E R ε A : Type) where
  /-- The first state, if the input is accepted. -/
  start : Except ε S
  /-- How the first state is reported, if it is. -/
  startEvent : Option (S → E)
  iteration : Iteration S E R ε
  /-- The number of iterations allowed. -/
  budget : Nat
  /-- The number of records to keep, `none` for all. -/
  limit : Option Nat
  /-- The result of a run that has ended. -/
  solution : Ending S R → A

namespace Procedure

def run (p : Procedure S E R ε A) : Solver E ε A := fun _ o w =>
  match p.start with
  | .error e => (.error e, w)
  | .ok s =>
      let (ending, w) := match p.startEvent with
        | none => p.iteration.run o p.budget p.limit s w
        | some report => p.iteration.runFrom o p.budget p.limit s (report s) w
      (ending.map p.solution, w)

/-- The events of the run if nobody stops it. -/
def events (p : Procedure S E R ε A) : List E :=
  match p.start with
  | .error _ => []
  | .ok s =>
      (p.startEvent.map fun report => report s).toList ++ p.iteration.events p.budget 0 s

/-- The ending at a state, after these events. -/
def endingAt (p : Procedure S E R ε A) (events : List E) (i : Nat) (s : S) : Ending S R where
  state := s
  iterations := i
  history := (events.map p.iteration.record).foldl .push (.empty p.limit)
  status := p.iteration.statusAtStop s

variable {p : Procedure S E R ε A} {o : Observer σ E} {w : σ}

theorem run_of_letsPass (passed : o.LetsPass w p.events) :
    p.run σ o w = ((p.run Unit .silent ()).1, o.after w p.events) := by
  simp only [run]
  rw [events] at passed ⊢
  cases hstart : p.start with
  | error e => rfl
  | ok s =>
      rw [hstart] at passed
      cases hreport : p.startEvent with
      | none =>
          rw [hreport] at passed
          dsimp only [Iteration.run]
          rw [Iteration.continueFor_of_letsPass passed]
          rfl
      | some report =>
          rw [hreport] at passed
          dsimp only
          rw [Iteration.runFrom_of_pass passed.1, Iteration.runFrom_of_pass rfl,
            Iteration.continueFor_of_letsPass passed.2]
          rfl

theorem exists_run_of_stopsAt {Reports : Nat → S → E → Prop}
    (hstart : ∀ s report, p.start = .ok s → p.startEvent = some report → Reports 0 s (report s))
    (hstep : ∀ i s t event, p.iteration.advance (i + 1) s = .ok (some (t, event)) →
      Reports (i + 1) t event)
    {before rest : List E} {event : E} (hevents : p.events = before ++ event :: rest) :
    ∃ i t, Reports i t event ∧
      ∀ (σ : Type) (o : Observer σ E) (w : σ), o.StopsAt w before event →
        p.run σ o w =
          (.ok (p.solution (p.endingAt (before ++ [event]) i t)),
            o.after w (before ++ [event])) := by
  simp only [run]
  rw [events] at hevents
  cases hs : p.start with
  | error e => simp [hs] at hevents
  | ok s =>
      rw [hs] at hevents
      cases hreport : p.startEvent with
      | none =>
          rw [hreport] at hevents
          obtain ⟨i, u, t, hadvance, hrun⟩ := Iteration.exists_continueFor_of_stopsAt
            (p := { state := s, iterations := 0, history := .empty p.limit }) hevents
          refine ⟨i + 1, t, hstep _ _ _ _ hadvance, ?_⟩
          intro σ o w stops
          dsimp only [Iteration.run]
          rw [hrun σ o w stops]
          rfl
      | some report =>
          rw [hreport] at hevents
          cases before with
          | nil =>
              obtain ⟨rfl, -⟩ := List.cons_eq_cons.mp hevents
              refine ⟨0, s, hstart s report hs hreport, ?_⟩
              intro σ o w stops
              have hstop : (o.observe w (report s)).1 = true := stops.stop
              dsimp only
              rw [Iteration.runFrom_of_stop hstop]
              rfl
          | cons first before =>
              obtain ⟨rfl, hrest⟩ := List.cons_eq_cons.mp hevents
              obtain ⟨i, u, t, hadvance, hrun⟩ := Iteration.exists_continueFor_of_stopsAt
                (p := { state := s, iterations := 0, history :=
                  (History.empty p.limit).push (p.iteration.record (report s)) }) hrest
              refine ⟨i + 1, t, hstep _ _ _ _ hadvance, ?_⟩
              intro σ o w stops
              have hpass : (o.observe w (report s)).1 = false := stops.passed.1
              dsimp only
              rw [Iteration.runFrom_of_pass hpass, hrun σ o _ ⟨stops.passed.2, stops.stop⟩]
              rfl

theorem shown_of_letsPass (passed : o.LetsPass w p.events) : p.run.shown o w = p.events := by
  rw [Solver.shown, run_of_letsPass (Observer.letsPass_logging.mpr passed), Observer.after_logging]
  simp

theorem shown_silent : p.run.shown .silent () = p.events :=
  shown_of_letsPass (Observer.letsPass_silent _)

/-- Every procedure follows the run that nobody stops. Where an observer stops it, its result is
that of the state which the last event reports. -/
theorem follows (p : Procedure S E R ε A) (Reports : Nat → S → E → Prop)
    (hstart : ∀ s report, p.start = .ok s → p.startEvent = some report → Reports 0 s (report s))
    (hstep : ∀ i s t event, p.iteration.advance (i + 1) s = .ok (some (t, event)) →
      Reports (i + 1) t event)
    (o : Observer σ E) (w : σ) :
    p.run.Follows (p.run Unit .silent ()).1 (fun before event a =>
      ∃ i t, Reports i t event ∧ a = p.solution (p.endingAt (before ++ [event]) i t)) o w := by
  rcases o.letsPass_or_stopsAt w p.events with passed | ⟨before, event, rest, hevents, stops⟩
  · have hrun := run_of_letsPass passed
    have hshown := shown_of_letsPass passed
    refine ⟨?_, ?_, ?_, ?_⟩
    · rw [run_of_letsPass (Observer.letsPass_logging.mpr passed), Observer.after_logging, hrun,
        hshown]
      simp
    · exact ⟨[], by rw [List.append_nil, hshown, shown_silent]⟩
    · intro _
      rw [hshown, shown_silent, hrun]
      exact ⟨rfl, rfl⟩
    · intro before event rest hsplit stops
      rw [hshown] at hsplit
      exact absurd passed (hsplit ▸ stops.not_letsPass)
  · obtain ⟨i, t, hreports, hrun⟩ := exists_run_of_stopsAt hstart hstep hevents
    have hlogged := hrun _ o.logging (w, #[]) (Observer.stopsAt_logging.mpr stops)
    rw [Observer.after_logging] at hlogged
    have hshown : p.run.shown o w = before ++ [event] := by simp [Solver.shown, hlogged]
    refine ⟨?_, ?_, ?_, ?_⟩
    · rw [hlogged, hrun _ o w stops, hshown]
      simp
    · rw [hshown, shown_silent, hevents]
      exact ⟨rest, by simp⟩
    · intro hpassed
      rw [hshown] at hpassed
      exact absurd hpassed stops.not_letsPass
    · intro before' event' rest' hsplit stops'
      rw [hshown] at hsplit
      obtain ⟨rfl, rfl, rfl⟩ := stops.unique stops' hsplit
      exact ⟨rfl, _, congrArg Prod.fst (hrun _ o w stops), i, t, hreports, rfl⟩

end Procedure

end LocalOptimization
