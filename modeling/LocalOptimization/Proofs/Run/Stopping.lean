import LocalOptimization.Proofs.Run

/-!
# Stopping a run

Which events a run would show if nobody stopped it depends on the method alone. An observer that
lets all of them pass does not change the result, and one that stops ends the run right at the event
that it stops at.
-/

namespace LocalOptimization

namespace Observer

variable {σ E : Type} {o : Observer σ E}

/-- The observer lets these events pass and asks to stop at the one that follows them. -/
structure StopsAt (o : Observer σ E) (w : σ) (before : List E) (event : E) : Prop where
  passed : o.LetsPass w before
  stop : (o.observe (o.after w before) event).1 = true

theorem letsPass_or_stopsAt (o : Observer σ E) (w : σ) (events : List E) :
    o.LetsPass w events ∨
      ∃ before event rest, events = before ++ event :: rest ∧ o.StopsAt w before event := by
  induction events generalizing w with
  | nil => exact .inl trivial
  | cons event events ih =>
      cases hobserve : (o.observe w event).1 with
      | true => exact .inr ⟨[], event, events, rfl, trivial, hobserve⟩
      | false =>
          rcases ih (o.observe w event).2 with hpassed | ⟨before, last, rest, rfl, stops⟩
          · exact .inl ⟨hobserve, hpassed⟩
          · exact .inr ⟨event :: before, last, rest, rfl, ⟨hobserve, stops.passed⟩, stops.stop⟩

theorem StopsAt.not_letsPass {w : σ} {before rest : List E} {event : E}
    (stops : o.StopsAt w before event) : ¬ o.LetsPass w (before ++ event :: rest) := by
  induction before generalizing w with
  | nil =>
      intro h
      exact Bool.false_ne_true (h.1.symm.trans stops.stop)
  | cons first before ih =>
      intro h
      exact ih ⟨stops.passed.2, stops.stop⟩ h.2

theorem StopsAt.unique {w : σ} {before before' rest rest' : List E} {event event' : E}
    (stops : o.StopsAt w before event) (stops' : o.StopsAt w before' event')
    (h : before ++ event :: rest = before' ++ event' :: rest') :
    before = before' ∧ event = event' ∧ rest = rest' := by
  induction before generalizing w before' with
  | nil =>
      cases before' with
      | nil =>
          obtain ⟨rfl, rfl⟩ := List.cons_eq_cons.mp h
          exact ⟨rfl, rfl, rfl⟩
      | cons first' before' =>
          obtain ⟨rfl, -⟩ := List.cons_eq_cons.mp h
          exact absurd (stops'.passed.1.symm.trans stops.stop) Bool.false_ne_true
  | cons first before ih =>
      cases before' with
      | nil =>
          obtain ⟨rfl, -⟩ := List.cons_eq_cons.mp h
          exact absurd (stops.passed.1.symm.trans stops'.stop) Bool.false_ne_true
      | cons first' before' =>
          obtain ⟨rfl, hrest⟩ := List.cons_eq_cons.mp h
          obtain ⟨rfl, rfl, rfl⟩ :=
            ih ⟨stops.passed.2, stops.stop⟩ ⟨stops'.passed.2, stops'.stop⟩ hrest
          exact ⟨rfl, rfl, rfl⟩

theorem letsPass_silent (events : List E) : (silent : Observer Unit E).LetsPass () events := by
  induction events with
  | nil => trivial
  | cons event events ih => exact ⟨rfl, ih⟩

theorem letsPass_logging {w : σ} {log : Array E} {events : List E} :
    o.logging.LetsPass (w, log) events ↔ o.LetsPass w events := by
  induction events generalizing w log with
  | nil => rfl
  | cons event events ih => exact and_congr_right fun _ => ih

theorem stopsAt_logging {w : σ} {log : Array E} {before : List E} {event : E} :
    o.logging.StopsAt (w, log) before event ↔ o.StopsAt w before event := by
  constructor
  · intro h
    have hstop := h.stop
    rw [after_logging] at hstop
    exact ⟨letsPass_logging.mp h.passed, hstop⟩
  · intro h
    refine ⟨letsPass_logging.mpr h.passed, ?_⟩
    rw [after_logging]
    exact h.stop

end Observer

namespace Iteration

variable {S E R ε σ : Type} {m : Iteration S E R ε} {o : Observer σ E}

/-- The events of at most `budget` iterations, after `i` others, if nobody stops the run. -/
def events (m : Iteration S E R ε) : (budget i : Nat) → S → List E
  | 0, _, _ => []
  | budget + 1, i, s =>
      if m.converged s then []
      else match m.advance (i + 1) s with
        | .ok (some (t, event)) => event :: m.events budget (i + 1) t
        | _ => []

section Equations

variable {budget i : Nat} {s : S}

theorem events_of_converged (converged : m.converged s = true) :
    m.events (budget + 1) i s = [] := by
  rw [events, if_pos converged]

theorem events_of_error {e : ε} (running : m.converged s = false)
    (failed : m.advance (i + 1) s = .error e) : m.events (budget + 1) i s = [] := by
  rw [events, if_neg (by simp [running]), failed]

theorem events_of_gaveUp (running : m.converged s = false)
    (gaveUp : m.advance (i + 1) s = .ok none) : m.events (budget + 1) i s = [] := by
  rw [events, if_neg (by simp [running]), gaveUp]

theorem events_of_advance {t : S} {event : E} (running : m.converged s = false)
    (advanced : m.advance (i + 1) s = .ok (some (t, event))) :
    m.events (budget + 1) i s = event :: m.events budget (i + 1) t := by
  rw [events, if_neg (by simp [running]), advanced]

end Equations

theorem continueFor_of_letsPass {budget : Nat} {p : Progress S R} {w : σ}
    (passed : o.LetsPass w (m.events budget p.iterations p.state)) :
    m.continueFor o budget p w =
      ((m.continueFor .silent budget p ()).1,
        o.after w (m.events budget p.iterations p.state)) := by
  refine continueFor_induction (motive := fun budget p w r =>
    o.LetsPass w (m.events budget p.iterations p.state) →
      r = ((m.continueFor .silent budget p ()).1,
        o.after w (m.events budget p.iterations p.state)))
    ?spent ?converged ?failed ?gaveUp ?stopped ?passed budget p w passed
  case spent =>
    intro p w _
    rfl
  case converged =>
    intro budget p w hconverged _
    rw [continueFor_of_converged hconverged, events_of_converged hconverged]
    rfl
  case failed =>
    intro budget p w e hrunning hadvance _
    rw [continueFor_of_error hrunning hadvance, events_of_error hrunning hadvance]
    rfl
  case gaveUp =>
    intro budget p w hrunning hadvance _
    rw [continueFor_of_gaveUp hrunning hadvance, events_of_gaveUp hrunning hadvance]
    rfl
  case stopped =>
    intro budget p w t event hrunning hadvance hobserve passed
    rw [events_of_advance hrunning hadvance] at passed
    exact absurd (passed.1.symm.trans hobserve) Bool.false_ne_true
  case passed =>
    intro budget p w t event r hrunning hadvance hobserve ih passed
    rw [events_of_advance hrunning hadvance] at passed ⊢
    rw [continueFor_of_pass hrunning hadvance rfl]
    exact ih passed.2

/-- An observer that stops ends the run at that event, with the state that the event came with. -/
theorem exists_continueFor_of_stopsAt {budget : Nat} {p : Progress S R} {before rest : List E}
    {event : E} (shown : m.events budget p.iterations p.state = before ++ event :: rest) :
    ∃ i s t, m.advance (i + 1) s = .ok (some (t, event)) ∧
      ∀ (σ : Type) (o : Observer σ E) (w : σ), o.StopsAt w before event →
        m.continueFor o budget p w =
          (.ok {
            state := t
            iterations := i + 1
            history := ((before ++ [event]).map m.record).foldl .push p.history
            status := m.statusAtStop t }, o.after w (before ++ [event])) := by
  induction budget generalizing p before with
  | zero => cases (List.append_eq_nil_iff.mp shown.symm).2
  | succ budget ih =>
      have hrunning : m.converged p.state = false := by
        by_contra hconverged
        rw [Bool.not_eq_false] at hconverged
        rw [events_of_converged hconverged] at shown
        simp at shown
      rcases hadvance : m.advance (p.iterations + 1) p.state with e | _ | ⟨t, first⟩
      · rw [events_of_error hrunning hadvance] at shown
        simp at shown
      · rw [events_of_gaveUp hrunning hadvance] at shown
        simp at shown
      · rw [events_of_advance hrunning hadvance] at shown
        cases before with
        | nil =>
            obtain ⟨rfl, -⟩ := List.cons_eq_cons.mp shown
            refine ⟨p.iterations, p.state, t, hadvance, ?_⟩
            intro σ o w stops
            exact continueFor_of_stop hrunning hadvance stops.stop
        | cons first' before =>
            obtain ⟨rfl, hrest⟩ := List.cons_eq_cons.mp shown
            obtain ⟨i, s, u, hlast, hrun⟩ := ih (p := m.progressTo p t first) hrest
            refine ⟨i, s, u, hlast, ?_⟩
            intro σ o w stops
            rw [continueFor_of_pass hrunning hadvance stops.passed.1]
            exact hrun σ o _ ⟨stops.passed.2, stops.stop⟩

end Iteration

end LocalOptimization
