import LocalOptimization.Proofs.Run

/-!
# Projections of iterations

A projection of an iteration forgets part of its states, events and records, in such a way that
what is left determines itself. A run commutes with it: the projected run shows the projected
events, ends for the same reason, and fails with the same error.
-/

namespace LocalOptimization

variable {S S' E E' R R' ε σ : Type}

namespace History

def map (f : R → R') (h : History R) : History R' where
  limit := h.limit
  kept := h.kept.map f
  dropped := h.dropped

theorem toList_map (f : R → R') (h : History R) : (h.map f).toList = h.toList.map f := by
  simp [toList, map]

theorem map_push (f : R → R') (h : History R) (r : R) :
    (h.push r).map f = (h.map f).push (f r) := by
  simp only [push, map, List.length_map]
  split
  · rfl
  · split
    · rfl
    · simp [List.map_take]

end History

def Progress.map (state : S → S') (history : History R → History R') (p : Progress S R) :
    Progress S' R' where
  state := state p.state
  iterations := p.iterations
  history := history p.history

def Ending.map (state : S → S') (history : History R → History R') (e : Ending S R) :
    Ending S' R' where
  toProgress := e.toProgress.map state history
  status := e.status

namespace Iteration

/-- The iteration `m` projects to `m'` along these maps of states, events and histories, where the
histories of both have these limits. -/
structure Projects (m : Iteration S E R ε) (m' : Iteration S' E' R' ε) (state : S → S')
    (event : E → E') (history : History R → History R') (limit limit' : Option Nat) : Prop where
  converged : ∀ s, m'.converged (state s) = m.converged s
  advance : ∀ i s, m'.advance i (state s) = (m.advance i s).map (Option.map (Prod.map state event))
  empty : history (.empty limit) = .empty limit'
  push : ∀ h e, h.limit = limit →
    history (h.push (m.record e)) = (history h).push (m'.record (event e))
  convergenceFirst : m'.convergenceFirst = m.convergenceFirst

namespace Projects

variable {m : Iteration S E R ε} {m' : Iteration S' E' R' ε}
variable {state : S → S'} {event : E → E'} {history : History R → History R'}
variable {limit limit' : Option Nat} {o : Observer σ E'} {p : Progress S R}

theorem progressTo_map (projects : m.Projects m' state event history limit limit')
    (hlimit : p.history.limit = limit) (t : S) (e : E) :
    m'.progressTo (p.map state history) (state t) (event e) =
      (m.progressTo p t e).map state history := by
  simp only [progressTo, Progress.map, projects.push p.history e hlimit]

theorem statusAtBudget_eq (projects : m.Projects m' state event history limit limit') (s : S) :
    m'.statusAtBudget (state s) = m.statusAtBudget s := by
  rw [statusAtBudget, statusAtBudget, projects.converged]

theorem statusAtStop_eq (projects : m.Projects m' state event history limit limit') (s : S) :
    m'.statusAtStop (state s) = m.statusAtStop s := by
  rw [statusAtStop, statusAtStop, projects.converged, projects.convergenceFirst]

/-- Running the projection is projecting the run. -/
theorem continueFor_map (projects : m.Projects m' state event history limit limit')
    (budget : Nat) (hlimit : p.history.limit = limit) (w : σ) :
    m'.continueFor o budget (p.map state history) w =
      ((m.continueFor (o.contramap event) budget p w).1.map (Ending.map state history),
        (m.continueFor (o.contramap event) budget p w).2) := by
  have hadvance (i : Nat) (p : Progress S R) {r : Except ε (Option (S × E))}
      (h : m.advance i p.state = r) :
      m'.advance i (p.map state history).state = r.map (Option.map (Prod.map state event)) :=
    h ▸ projects.advance i p.state
  refine continueFor_induction (m := m) (o := o.contramap event)
    (motive := fun budget p w r => p.history.limit = limit →
      m'.continueFor o budget (p.map state history) w = (r.1.map (Ending.map state history), r.2))
    ?spent ?converged ?failed ?gaveUp ?stopped ?passed budget p w hlimit
  case spent =>
    intro p w _
    have hstatus := projects.statusAtBudget_eq p.state
    simp only [continueFor, Progress.map, hstatus]
    rfl
  case converged =>
    intro budget p w hconverged _
    rw [continueFor_of_converged ((projects.converged _).trans hconverged)]
    rfl
  case failed =>
    intro budget p w e hrunning h _
    rw [continueFor_of_error ((projects.converged _).trans hrunning) (hadvance _ p h)]
    rfl
  case gaveUp =>
    intro budget p w hrunning h _
    rw [continueFor_of_gaveUp ((projects.converged _).trans hrunning) (hadvance _ p h)]
    rfl
  case stopped =>
    intro budget p w t e hrunning h hobserve hlimit
    have hstop : (o.observe w (event e)).1 = true := hobserve
    rw [continueFor_of_stop ((projects.converged _).trans hrunning) (hadvance _ p h) hstop,
      projects.progressTo_map hlimit, projects.statusAtStop_eq]
    rfl
  case passed =>
    intro budget p w t e r hrunning h hobserve ih hlimit
    have hpass : (o.observe w (event e)).1 = false := hobserve
    rw [continueFor_of_pass ((projects.converged _).trans hrunning) (hadvance _ p h) hpass,
      projects.progressTo_map hlimit]
    apply ih
    rw [progressTo, History.limit_push, hlimit]

theorem run_map (projects : m.Projects m' state event history limit limit') (budget : Nat) (s : S)
    (w : σ) :
    m'.run o budget limit' (state s) w =
      ((m.run (o.contramap event) budget limit s w).1.map (Ending.map state history),
        (m.run (o.contramap event) budget limit s w).2) := by
  rw [run, run, ← projects.empty]
  exact projects.continueFor_map
    (p := { state := s, iterations := 0, history := .empty limit }) budget rfl w

theorem runFrom_map (projects : m.Projects m' state event history limit limit') (budget : Nat)
    (s : S) (e : E) (w : σ) :
    m'.runFrom o budget limit' (state s) (event e) w =
      ((m.runFrom (o.contramap event) budget limit s e w).1.map (Ending.map state history),
        (m.runFrom (o.contramap event) budget limit s e w).2) := by
  have hfirst : (History.empty limit').push (m'.record (event e)) =
      history ((History.empty limit).push (m.record e)) := by
    rw [projects.push _ e rfl, projects.empty]
  cases hobserve : (o.observe w (event e)).1 with
  | true =>
      have hcontramap : ((o.contramap event).observe w e).1 = true := hobserve
      rw [runFrom_of_stop hobserve, runFrom_of_stop hcontramap, projects.statusAtStop_eq, hfirst]
      rfl
  | false =>
      have hcontramap : ((o.contramap event).observe w e).1 = false := hobserve
      rw [runFrom_of_pass hobserve, runFrom_of_pass hcontramap, hfirst]
      exact projects.continueFor_map
        (p := { state := s, iterations := 0, history := (History.empty limit).push (m.record e) })
        budget (History.limit_push _ _) _

end Projects

end Iteration

end LocalOptimization
