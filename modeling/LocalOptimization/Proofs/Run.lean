import Mathlib.Data.List.Chain
import LocalOptimization.Proofs.History
import LocalOptimization.Run

/-!
# What a run is made of

A run is a chain of iterations. Its ending is read off the chain, and it fails exactly where the
chain comes to a state from which the method fails to advance. What one iteration keeps, a chain
keeps.
-/

namespace LocalOptimization

namespace Observer

variable {σ E : Type}

def after (o : Observer σ E) (s : σ) (events : List E) : σ :=
  events.foldl (fun s event => (o.observe s event).2) s

def LetsPass (o : Observer σ E) : σ → List E → Prop
  | _, [] => True
  | s, event :: events => (o.observe s event).1 = false ∧ o.LetsPass (o.observe s event).2 events

theorem after_logging (o : Observer σ E) (s : σ) (log : Array E) (events : List E) :
    o.logging.after (s, log) events = (o.after s events, log ++ events) := by
  induction events generalizing s log with
  | nil => simp [after]
  | cons event events ih =>
      have h := ih (o.observe s event).2 (log.push event)
      simpa [after, logging] using h

end Observer

namespace Iteration

variable {S E R ε σ : Type} {m : Iteration S E R ε} {o : Observer σ E}

def progressTo (m : Iteration S E R ε) (p : Progress S R) (t : S) (event : E) : Progress S R where
  state := t
  iterations := p.iterations + 1
  history := p.history.push (m.record event)

section Equations

variable {budget : Nat} {p : Progress S R} {s : σ}

theorem continueFor_of_converged (converged : m.converged p.state = true) :
    m.continueFor o (budget + 1) p s = (.ok { p with status := .converged }, s) := by
  rw [continueFor, if_pos converged]

theorem continueFor_of_error {e : ε} (running : m.converged p.state = false)
    (failed : m.advance (p.iterations + 1) p.state = .error e) :
    m.continueFor o (budget + 1) p s = (.error e, s) := by
  rw [continueFor, if_neg (by simp [running]), failed]

theorem continueFor_of_gaveUp (running : m.converged p.state = false)
    (gaveUp : m.advance (p.iterations + 1) p.state = .ok none) :
    m.continueFor o (budget + 1) p s = (.ok { p with status := .gaveUp }, s) := by
  rw [continueFor, if_neg (by simp [running]), gaveUp]

theorem continueFor_of_stop {t : S} {event : E} (running : m.converged p.state = false)
    (advanced : m.advance (p.iterations + 1) p.state = .ok (some (t, event)))
    (stop : (o.observe s event).1 = true) :
    m.continueFor o (budget + 1) p s =
      (.ok { m.progressTo p t event with status := m.statusAtStop t },
        (o.observe s event).2) := by
  rw [continueFor, if_neg (by simp [running]), advanced]
  rcases hobserve : o.observe s event with ⟨_ | _, s'⟩
  · simp [hobserve] at stop
  · simp only [hobserve, progressTo]

theorem continueFor_of_pass {t : S} {event : E} (running : m.converged p.state = false)
    (advanced : m.advance (p.iterations + 1) p.state = .ok (some (t, event)))
    (pass : (o.observe s event).1 = false) :
    m.continueFor o (budget + 1) p s =
      m.continueFor o budget (m.progressTo p t event) (o.observe s event).2 := by
  rw [continueFor, if_neg (by simp [running]), advanced]
  rcases hobserve : o.observe s event with ⟨_ | _, s'⟩
  · simp only [hobserve, progressTo]
  · simp [hobserve] at pass

/-- Induction along a run: it ends for one of five reasons, or an event passes and it goes on. -/
theorem continueFor_induction
    {motive : Nat → Progress S R → σ → Except ε (Ending S R) × σ → Prop}
    (spent : ∀ p w, motive 0 p w (.ok { p with status := m.statusAtBudget p.state }, w))
    (converged : ∀ budget p w, m.converged p.state = true →
      motive (budget + 1) p w (.ok { p with status := .converged }, w))
    (failed : ∀ budget p w e, m.converged p.state = false →
      m.advance (p.iterations + 1) p.state = .error e → motive (budget + 1) p w (.error e, w))
    (gaveUp : ∀ budget p w, m.converged p.state = false →
      m.advance (p.iterations + 1) p.state = .ok none →
      motive (budget + 1) p w (.ok { p with status := .gaveUp }, w))
    (stopped : ∀ budget p w t event, m.converged p.state = false →
      m.advance (p.iterations + 1) p.state = .ok (some (t, event)) →
      (o.observe w event).1 = true →
      motive (budget + 1) p w
        (.ok { m.progressTo p t event with status := m.statusAtStop t }, (o.observe w event).2))
    (passed : ∀ budget p w t event r, m.converged p.state = false →
      m.advance (p.iterations + 1) p.state = .ok (some (t, event)) →
      (o.observe w event).1 = false →
      motive budget (m.progressTo p t event) (o.observe w event).2 r →
      motive (budget + 1) p w r)
    (budget : Nat) (p : Progress S R) (w : σ) : motive budget p w (m.continueFor o budget p w) := by
  induction budget generalizing p w with
  | zero => exact spent p w
  | succ budget ih =>
      cases hrunning : m.converged p.state with
      | true =>
          rw [continueFor_of_converged hrunning]
          exact converged budget p w hrunning
      | false =>
          rcases hadvance : m.advance (p.iterations + 1) p.state with e | _ | ⟨t, event⟩
          · rw [continueFor_of_error hrunning hadvance]
            exact failed budget p w e hrunning hadvance
          · rw [continueFor_of_gaveUp hrunning hadvance]
            exact gaveUp budget p w hrunning hadvance
          · cases hobserve : (o.observe w event).1 with
            | true =>
                rw [continueFor_of_stop hrunning hadvance hobserve]
                exact stopped budget p w t event hrunning hadvance hobserve
            | false =>
                rw [continueFor_of_pass hrunning hadvance hobserve]
                exact passed budget p w t event _ hrunning hadvance hobserve (ih _ _)

end Equations

/-- Iterations that lead from one state to another, after `i` others, with their events. None of
them starts from a state that has converged. -/
inductive Chain (m : Iteration S E R ε) : Nat → S → List E → S → Prop
  | nil (i : Nat) (s : S) : Chain m i s [] s
  | cons {i : Nat} {s t u : S} {event : E} {events : List E} (running : m.converged s = false)
      (advanced : m.advance (i + 1) s = .ok (some (t, event)))
      (rest : Chain m (i + 1) t events u) : Chain m i s (event :: events) u

namespace Chain

theorem invariant_at {P : Nat → S → Prop} {Q : E → Prop}
    (step : ∀ i s t event, P i s → m.converged s = false →
      m.advance (i + 1) s = .ok (some (t, event)) → P (i + 1) t ∧ Q event)
    {i : Nat} {s t : S} {events : List E} (chain : m.Chain i s events t) (hs : P i s) :
    P (i + events.length) t ∧ ∀ event ∈ events, Q event := by
  induction chain with
  | nil => exact ⟨hs, by simp⟩
  | @cons i s u t event events running advanced rest ih =>
      obtain ⟨hu, hevent⟩ := step _ _ _ _ hs running advanced
      obtain ⟨ht, hevents⟩ := ih hu
      refine ⟨?_, ?_⟩
      · rw [List.length_cons, Nat.add_comm events.length, ← Nat.add_assoc]
        exact ht
      · intro e he
        rcases List.mem_cons.mp he with rfl | he
        · exact hevent
        · exact hevents e he

theorem invariant {P : S → Prop} {Q : E → Prop}
    (step : ∀ i s t event, P s → m.advance i s = .ok (some (t, event)) → P t ∧ Q event)
    {i : Nat} {s t : S} {events : List E} (chain : m.Chain i s events t) (hs : P s) :
    P t ∧ ∀ event ∈ events, Q event :=
  chain.invariant_at (P := fun _ => P) (fun _ _ _ _ hs _ advanced => step _ _ _ _ hs advanced) hs

/-- Where an iteration that takes up from the report on its start relates its own report to that
one, the reports of a chain are related one by one. -/
theorem isChain {P : Nat → S → E → Prop} {Q : E → E → Prop}
    (step : ∀ i s t before event, P i s before → m.converged s = false →
      m.advance (i + 1) s = .ok (some (t, event)) → P (i + 1) t event ∧ Q before event)
    {i : Nat} {s t : S} {events : List E} (chain : m.Chain i s events t) {before : E}
    (hs : P i s before) : (before :: events).IsChain Q := by
  induction chain generalizing before with
  | nil => exact .singleton before
  | cons running advanced rest ih =>
      obtain ⟨ht, hevent⟩ := step _ _ _ _ _ hs running advanced
      exact .cons_cons hevent (ih ht)

theorem map_number {number : E → Nat}
    (hnumber : ∀ i s t event, m.advance i s = .ok (some (t, event)) → number event = i)
    {i : Nat} {s t : S} {events : List E} (chain : m.Chain i s events t) :
    events.map number = List.range' (i + 1) events.length := by
  induction chain with
  | nil => rfl
  | cons running advanced rest ih =>
      rw [List.map_cons, List.length_cons, List.range'_succ, ih, hnumber _ _ _ _ advanced]

theorem append_iff {i : Nat} {s u : S} {events later : List E} :
    m.Chain i s (events ++ later) u ↔
      ∃ t, m.Chain i s events t ∧ m.Chain (i + events.length) t later u := by
  constructor
  · intro chain
    induction events generalizing i s with
    | nil => exact ⟨s, .nil i s, chain⟩
    | cons event events ih =>
        cases chain with
        | cons running advanced rest =>
            obtain ⟨t, hevents, hlater⟩ := ih rest
            rw [Nat.add_right_comm] at hlater
            exact ⟨t, .cons running advanced hevents, hlater⟩
  · rintro ⟨t, chain, rest⟩
    induction chain with
    | nil => exact rest
    | cons running advanced _ ih =>
        rw [List.length_cons, ← Nat.add_assoc, Nat.add_right_comm] at rest
        exact .cons running advanced (ih rest)

theorem exists_last {i : Nat} {s t : S} {events : List E} (chain : m.Chain i s events t)
    (nonempty : events ≠ []) :
    ∃ before event u, events = before ++ [event] ∧ m.Chain i s before u ∧
      m.converged u = false ∧ m.advance (i + before.length + 1) u = .ok (some (t, event)) := by
  obtain ⟨before, event, rfl⟩ := (List.eq_nil_or_concat' events).resolve_left nonempty
  obtain ⟨u, hbefore, hlast⟩ := append_iff.mp chain
  cases hlast with
  | cons running advanced rest =>
      cases rest
      exact ⟨before, event, u, rfl, hbefore, running, advanced⟩

end Chain

/-- The run that has come to `p` with `budget` iterations left ends well after these events. -/
structure Outcome (m : Iteration S E R ε) (budget : Nat) (p : Progress S R) (events : List E)
    (e : Ending S R) : Prop where
  chain : m.Chain p.iterations p.state events e.state
  withinBudget : events.length ≤ budget
  iterations : e.iterations = p.iterations + events.length
  history : e.history = (events.map m.record).foldl .push p.history
  converged : e.status = .converged → m.converged e.state = true
  exhausted : e.status = .exhausted → m.converged e.state = false ∧ events.length = budget
  gaveUp : e.status = .gaveUp → m.advance (e.iterations + 1) e.state = .ok none
  stopped : e.status = .stopped → events ≠ []

/-- A run that ends well is a chain of iterations that were all shown to the observer. -/
theorem exists_outcome {budget : Nat} {p : Progress S R} {s s' : σ} {e : Ending S R}
    (h : m.continueFor o budget p s = (.ok e, s')) :
    ∃ events, m.Outcome budget p events e ∧ s' = o.after s events := by
  refine continueFor_induction (m := m) (o := o)
    (motive := fun budget p s r => ∀ e, r.1 = .ok e →
      ∃ events, m.Outcome budget p events e ∧ r.2 = o.after s events)
    ?spent ?converged ?failed ?gaveUp ?stopped ?passed budget p s e (congrArg Prod.fst h) |>.imp
    fun events hevents => ⟨hevents.1, (congrArg Prod.snd h).symm.trans hevents.2⟩
  case spent =>
    rintro p s e ⟨⟩
    refine ⟨[], ⟨.nil _ _, Nat.le_refl 0, rfl, rfl, ?_, ?_, ?_, ?_⟩, rfl⟩ <;>
      simp only [statusAtBudget] <;> split <;> simp_all
  case converged =>
    rintro budget p s hconverged e ⟨⟩
    exact ⟨[], ⟨.nil _ _, Nat.zero_le _, rfl, rfl, fun _ => hconverged, by simp, by simp, by simp⟩,
      rfl⟩
  case failed =>
    rintro budget p s e hrunning hadvance e' ⟨⟩
  case gaveUp =>
    rintro budget p s hrunning hadvance e ⟨⟩
    exact ⟨[], ⟨.nil _ _, Nat.zero_le _, rfl, rfl, by simp, by simp, fun _ => hadvance, by simp⟩,
      rfl⟩
  case stopped =>
    rintro budget p s t event hrunning hadvance hobserve e ⟨⟩
    refine ⟨[event], ⟨.cons hrunning hadvance (.nil _ _), by simp, rfl, rfl, ?_, ?_, ?_, ?_⟩,
      rfl⟩ <;>
      simp only [statusAtStop, progressTo] <;> split <;> simp_all
  case passed =>
    intro budget p s t event r hrunning hadvance hobserve ih e he
    obtain ⟨events, outcome, hafter⟩ := ih e he
    refine ⟨event :: events, ⟨.cons hrunning hadvance outcome.chain, ?_, ?_, ?_,
      outcome.converged, ?_, outcome.gaveUp, by simp⟩, hafter⟩
    · simpa using outcome.withinBudget
    · simp only [outcome.iterations, progressTo, List.length_cons]
      omega
    · simp [outcome.history, progressTo]
    · intro hstatus
      obtain ⟨hlast, hlength⟩ := outcome.exhausted hstatus
      exact ⟨hlast, by simp [hlength]⟩

theorem exists_chain (m : Iteration S E R ε) (o : Observer σ E) (budget : Nat) (p : Progress S R)
    (s : σ) : ∃ events t, m.Chain p.iterations p.state events t ∧
      (m.continueFor o budget p s).2 = o.after s events ∧
      ∀ e, (m.continueFor o budget p s).1 = .ok e →
        e.history = (events.map m.record).foldl .push p.history := by
  refine continueFor_induction (motive := fun _ p s r => ∃ events t,
    m.Chain p.iterations p.state events t ∧ r.2 = o.after s events ∧
      ∀ e, r.1 = .ok e → e.history = (events.map m.record).foldl .push p.history)
    ?spent ?converged ?failed ?gaveUp ?stopped ?passed budget p s
  case spent =>
    intro p s
    exact ⟨[], p.state, .nil _ _, rfl, by rintro e ⟨⟩; rfl⟩
  case converged =>
    intro _ p s _
    exact ⟨[], p.state, .nil _ _, rfl, by rintro e ⟨⟩; rfl⟩
  case failed =>
    intro _ p s e _ _
    exact ⟨[], p.state, .nil _ _, rfl, nofun⟩
  case gaveUp =>
    intro _ p s _ _
    exact ⟨[], p.state, .nil _ _, rfl, by rintro e ⟨⟩; rfl⟩
  case stopped =>
    intro _ p s t event hrunning hadvance _
    exact ⟨[event], t, .cons hrunning hadvance (.nil _ _), rfl, by rintro e ⟨⟩; rfl⟩
  case passed =>
    rintro _ p s t event r hrunning hadvance _ ⟨events, u, chain, hafter, hhistory⟩
    exact ⟨event :: events, u, .cons hrunning hadvance chain, hafter, hhistory⟩

/-- The run that has come to `s` after `i` iterations gets through these events to the state `t`,
from which it starts another iteration. -/
structure Continues (m : Iteration S E R ε) (o : Observer σ E) (budget i : Nat) (s : S) (w : σ)
    (events : List E) (t : S) : Prop where
  chain : m.Chain i s events t
  running : m.converged t = false
  passed : o.LetsPass w events
  left : events.length < budget

theorem continueFor_eq_error_iff {budget : Nat} {p : Progress S R} {w : σ} {e : ε} :
    (m.continueFor o budget p w).1 = .error e ↔
      ∃ events t, m.Continues o budget p.iterations p.state w events t ∧
        m.advance (p.iterations + events.length + 1) t = .error e := by
  constructor
  · -- Along the recursion of the run: its error comes from the first iteration or from the rest.
    refine continueFor_induction (m := m) (o := o)
      (motive := fun budget p w r => r.1 = .error e →
        ∃ events t, m.Continues o budget p.iterations p.state w events t ∧
          m.advance (p.iterations + events.length + 1) t = .error e)
      nofun ?converged ?failed ?gaveUp ?stopped ?passed budget p w
    case converged =>
      rintro _ _ _ _ ⟨⟩
    case failed =>
      rintro budget p w e hrunning hadvance ⟨⟩
      exact ⟨[], p.state, ⟨.nil _ _, hrunning, trivial, by simp⟩, hadvance⟩
    case gaveUp =>
      rintro _ _ _ _ _ ⟨⟩
    case stopped =>
      rintro _ _ _ _ _ _ _ _ ⟨⟩
    case passed =>
      intro budget p w t event r hrunning hadvance hobserve ih h
      obtain ⟨events, u, continues, hfail⟩ := ih h
      refine ⟨event :: events, u, ⟨.cons hrunning hadvance continues.chain,
        continues.running, ⟨hobserve, continues.passed⟩, ?_⟩, ?_⟩
      · simpa using continues.left
      · simpa [progressTo, Nat.add_assoc, Nat.add_comm, Nat.add_left_comm] using hfail
  · -- Along the events: the run passes each of them and then fails at `t`.
    rintro ⟨events, t, continues, hfail⟩
    induction events generalizing budget p w with
    | nil =>
        obtain ⟨chain, running, -, left⟩ := continues
        cases chain
        obtain ⟨budget, rfl⟩ := Nat.exists_eq_succ_of_ne_zero (Nat.ne_of_gt left)
        rw [continueFor_of_error running (by simpa using hfail)]
    | cons event events ih =>
        obtain ⟨chain, running, ⟨pass, passed⟩, left⟩ := continues
        cases chain with
        | cons hrunning advanced rest =>
            have budgetPos : 0 < budget := Nat.zero_lt_of_lt left
            obtain ⟨budget, rfl⟩ := Nat.exists_eq_succ_of_ne_zero (Nat.ne_of_gt budgetPos)
            rw [continueFor_of_pass hrunning advanced pass]
            apply ih (p := m.progressTo p _ event)
            · exact ⟨rest, running, passed, by simpa using left⟩
            · simpa [progressTo, Nat.add_assoc, Nat.add_comm, Nat.add_left_comm] using hfail

theorem status_ne_stopped (passes : ∀ w event, (o.observe w event).1 = false) {budget : Nat}
    {p : Progress S R} {w : σ} {e : Ending S R} (h : (m.continueFor o budget p w).1 = .ok e) :
    e.status ≠ .stopped := by
  refine continueFor_induction (m := m) (o := o)
    (motive := fun _ _ _ r => ∀ e, r.1 = .ok e → e.status ≠ .stopped)
    ?spent ?converged nofun ?gaveUp ?stopped ?passed budget p w e h
  case spent =>
    rintro p w e ⟨⟩
    simp only [statusAtBudget]
    split <;> simp
  case converged =>
    rintro _ _ _ _ e ⟨⟩
    simp
  case gaveUp =>
    rintro _ _ _ _ _ e ⟨⟩
    simp
  case stopped =>
    intro _ _ w _ event _ _ hobserve
    rw [passes w event] at hobserve
    cases hobserve
  case passed =>
    intro _ _ _ _ _ r _ _ _ ih
    exact ih

theorem continueFor_logging (m : Iteration S E R ε) (o : Observer σ E) (budget : Nat)
    (p : Progress S R) (s : σ) (log : Array E) :
    (m.continueFor o.logging budget p (s, log)).1 = (m.continueFor o budget p s).1 ∧
      (m.continueFor o.logging budget p (s, log)).2.1 = (m.continueFor o budget p s).2 := by
  refine continueFor_induction (motive := fun budget p s r => ∀ log,
    (m.continueFor o.logging budget p (s, log)).1 = r.1 ∧
      (m.continueFor o.logging budget p (s, log)).2.1 = r.2)
    ?spent ?converged ?failed ?gaveUp ?stopped ?passed budget p s log
  case spent =>
    intro p s log
    exact ⟨rfl, rfl⟩
  case converged =>
    intro budget p s hconverged log
    rw [continueFor_of_converged hconverged]
    exact ⟨rfl, rfl⟩
  case failed =>
    intro budget p s e hrunning hadvance log
    rw [continueFor_of_error hrunning hadvance]
    exact ⟨rfl, rfl⟩
  case gaveUp =>
    intro budget p s hrunning hadvance log
    rw [continueFor_of_gaveUp hrunning hadvance]
    exact ⟨rfl, rfl⟩
  case stopped =>
    intro budget p s t event hrunning hadvance hobserve log
    have hlogging : (o.logging.observe (s, log) event).1 = true := hobserve
    rw [continueFor_of_stop hrunning hadvance hlogging]
    exact ⟨rfl, rfl⟩
  case passed =>
    intro budget p s t event r hrunning hadvance hobserve ih log
    have hlogging : (o.logging.observe (s, log) event).1 = false := hobserve
    rw [continueFor_of_pass hrunning hadvance hlogging]
    exact ih (log.push event)

theorem runFrom_of_stop {budget : Nat} {limit : Option Nat} {state : S} {event : E} {s : σ}
    (stop : (o.observe s event).1 = true) :
    m.runFrom o budget limit state event s =
      (.ok { state, iterations := 0, history := (History.empty limit).push (m.record event)
             status := m.statusAtStop state }, (o.observe s event).2) := by
  rw [runFrom]
  rcases hobserve : o.observe s event with ⟨_ | _, s'⟩
  · simp [hobserve] at stop
  · rfl

theorem runFrom_of_pass {budget : Nat} {limit : Option Nat} {state : S} {event : E} {s : σ}
    (pass : (o.observe s event).1 = false) :
    m.runFrom o budget limit state event s =
      m.continueFor o budget
        { state, iterations := 0, history := (History.empty limit).push (m.record event) }
        (o.observe s event).2 := by
  rw [runFrom]
  rcases hobserve : o.observe s event with ⟨_ | _, s'⟩
  · rfl
  · simp [hobserve] at pass

/-- What an observer that keeps the events has seen of a run: the event of the start and those of a
chain from there. The history of a result holds the last of them. -/
theorem exists_log (m : Iteration S E R ε) (o : Observer σ E) (budget : Nat) (limit : Option Nat)
    (state : S) (event : E) (s : σ) :
    ∃ events t, m.Chain 0 state events t ∧
      m.runFrom o.logging budget limit state event (s, #[]) =
        ((m.runFrom o budget limit state event s).1, (m.runFrom o budget limit state event s).2,
          (event :: events).toArray) ∧
      ∀ e, (m.runFrom o budget limit state event s).1 = .ok e →
        e.history.toList <:+ (event :: events).map m.record := by
  have hfirst : ((History.empty limit).push (m.record event)).toList <:+ [m.record event] :=
    History.suffix_push (l := []) _ (List.suffix_refl [])
  cases hobserve : (o.observe s event).1 with
  | true =>
      have hlogging : (o.logging.observe (s, #[]) event).1 = true := hobserve
      rw [runFrom_of_stop hobserve, runFrom_of_stop hlogging]
      refine ⟨[], state, .nil _ _, rfl, ?_⟩
      rintro e ⟨⟩
      exact hfirst
  | false =>
      have hlogging : (o.logging.observe (s, #[]) event).1 = false := hobserve
      rw [runFrom_of_pass hobserve, runFrom_of_pass hlogging]
      obtain ⟨events, t, chain, hafter, hhistory⟩ := m.exists_chain o.logging budget
        { state, iterations := 0, history := (History.empty limit).push (m.record event) }
        (o.logging.observe (s, #[]) event).2
      obtain ⟨hresult, hstate⟩ := m.continueFor_logging o budget
        { state, iterations := 0, history := (History.empty limit).push (m.record event) }
        (o.observe s event).2 #[event]
      refine ⟨events, t, chain, Prod.ext hresult (Prod.ext hstate ?_), ?_⟩
      · have hlog := o.after_logging (o.observe s event).2 #[event] events
        exact (congrArg Prod.snd (hafter.trans hlog)).trans (by simp)
      · intro e he
        rw [hhistory e (hresult.trans he)]
        exact History.suffix_foldl_push hfirst

end Iteration

end LocalOptimization
