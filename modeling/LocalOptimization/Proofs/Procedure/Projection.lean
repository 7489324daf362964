import LocalOptimization.Proofs.Procedure
import LocalOptimization.Proofs.Run.Projection

/-!
# Projections of procedures

A procedure whose start, iteration and solution are projections of those of another one shows the
projected events and returns the projected result.
-/

namespace LocalOptimization.Procedure

variable {S S' E E' R R' ε A A' σ : Type}

/-- The procedure `p` projects to `p'` along these maps of states, events, histories and results. -/
structure Projects (p : Procedure S E R ε A) (p' : Procedure S' E' R' ε A') (state : S → S')
    (event : E → E') (history : History R → History R') (result : A → A') : Prop where
  start : p'.start = p.start.map state
  startEvent : (p'.startEvent.map fun report => report ∘ state) =
    p.startEvent.map fun report => event ∘ report
  iteration : p.iteration.Projects p'.iteration state event history p.limit p'.limit
  budget : p'.budget = p.budget
  solution : ∀ e, p'.solution (e.map state history) = result (p.solution e)

variable {p : Procedure S E R ε A} {p' : Procedure S' E' R' ε A'}
variable {state : S → S'} {event : E → E'} {history : History R → History R'} {result : A → A'}

theorem Projects.map_solution (projects : p.Projects p' state event history result)
    (r : Except ε (Ending S R)) :
    (r.map (Ending.map state history)).map p'.solution = (r.map p.solution).map result := by
  cases r with
  | error e => rfl
  | ok e => exact congrArg Except.ok (projects.solution e)

theorem Projects.run_map (projects : p.Projects p' state event history result)
    (o : Observer σ E') (w : σ) :
    p'.run σ o w =
      ((p.run σ (o.contramap event) w).1.map result, (p.run σ (o.contramap event) w).2) := by
  have hreport := projects.startEvent
  cases hs : p.start with
  | error e =>
      have hs' : p'.start = .error e := by rw [projects.start, hs]; rfl
      simp only [run, hs, hs']
      rfl
  | ok s =>
      have hs' : p'.start = .ok (state s) := by rw [projects.start, hs]; rfl
      simp only [run, hs, hs', projects.budget]
      cases hp : p.startEvent with
      | none =>
          rw [hp, Option.map_none, Option.map_eq_none_iff] at hreport
          simp only [hreport, projects.iteration.run_map, projects.map_solution]
      | some report =>
          rw [hp, Option.map_some, Option.map_eq_some_iff] at hreport
          obtain ⟨report', hp', hcomp⟩ := hreport
          have hevent : report' (state s) = event (report s) := congrFun hcomp s
          simp only [hp', hevent, projects.iteration.runFrom_map, projects.map_solution]

end LocalOptimization.Procedure
