import Mathlib
import LocalOptimization.Proofs.Except
import LocalOptimization.Proofs.Procedure

/-!
# Procedures that come to a result

A run comes to an ending where no iteration fails, and does not go on for long where every iteration
uses up some of a potential. Where the start has converged, or the first iteration leads to a state
that has, the result is known without following the run.
-/

namespace LocalOptimization

variable {S E R ε A σ : Type}

namespace Iteration

variable {m : Iteration S E R ε} {o : Observer σ E}

theorem continueFor_at_converged {p : Progress S R} (converged : m.converged p.state = true)
    (budget : Nat) (w : σ) :
    m.continueFor o budget p w = (.ok { p with status := .converged }, w) := by
  cases budget with
  | zero => simp [continueFor, statusAtBudget, converged]
  | succ budget => exact continueFor_of_converged converged

theorem events_at_converged {s : S} (converged : m.converged s = true) (budget i : Nat) :
    m.events budget i s = [] := by
  cases budget with
  | zero => rfl
  | succ budget => exact events_of_converged converged

theorem exists_ending_of_total (total : ∀ i s, ∃ next, m.advance i s = .ok next)
    (o : Observer σ E) (budget : Nat) (p : Progress S R) (w : σ) :
    ∃ e, (m.continueFor o budget p w).1 = .ok e := by
  cases h : (m.continueFor o budget p w).1 with
  | ok e => exact ⟨e, rfl⟩
  | error e =>
      obtain ⟨events, t, -, hfail⟩ := continueFor_eq_error_iff.mp h
      obtain ⟨next, hnext⟩ := total (p.iterations + events.length + 1) t
      rw [hnext] at hfail
      cases hfail

/-- Where every iteration uses up one unit of a potential, the potential at the start bounds the
number of iterations. -/
theorem Chain.potential_add_length_le {P : S → Prop} {V : S → ℝ}
    (step : ∀ i s t event, P s → m.converged s = false → m.advance i s = .ok (some (t, event)) →
      P t ∧ V t + 1 ≤ V s)
    {i : Nat} {s t : S} {events : List E} (chain : m.Chain i s events t) (hs : P s) :
    P t ∧ V t + events.length ≤ V s := by
  induction chain with
  | nil => exact ⟨hs, by simp⟩
  | cons running advanced rest ih =>
      obtain ⟨hu, hdecrease⟩ := step _ _ _ _ hs running advanced
      obtain ⟨ht, hrest⟩ := ih hu
      refine ⟨ht, ?_⟩
      rw [List.length_cons, Nat.cast_succ]
      linarith

end Iteration

namespace Procedure

variable {p : Procedure S E R ε A} {s t : S} {report : S → E} {event : E}

/-- The run that nobody stops shows these events and ends, after `i` iterations, at a state that has
converged. -/
structure ConvergesAfter (p : Procedure S E R ε A) (i : Nat) (events : List E) (t : S) : Prop where
  shown : p.run.shown .silent () = events
  result : (p.run Unit .silent ()).1 =
    .ok (p.solution { p.endingAt events i t with status := .converged })

theorem ConvergesAfter.history {i : Nat} {events : List E} (_ : p.ConvergesAfter i events t) :
    (p.endingAt events i t).history.toList <:+ events.map p.iteration.record :=
  History.suffix_foldl_push (l := []) (by simp)

theorem convergesAfter_zero (hstart : p.start = .ok s) (hreport : p.startEvent = some report)
    (converged : p.iteration.converged s = true) : p.ConvergesAfter 0 [report s] s := by
  constructor
  · rw [shown_silent, events, hstart, hreport]
    simp [Iteration.events_at_converged converged]
  · simp only [run, hstart, hreport]
    rw [Iteration.runFrom_of_pass rfl, Iteration.continueFor_at_converged converged]
    rfl

theorem convergesAfter_one (hstart : p.start = .ok s) (hreport : p.startEvent = some report)
    (running : p.iteration.converged s = false) (allowed : 0 < p.budget)
    (advanced : p.iteration.advance 1 s = .ok (some (t, event)))
    (converged : p.iteration.converged t = true) : p.ConvergesAfter 1 [report s, event] t := by
  obtain ⟨budget, hbudget⟩ := Nat.exists_eq_succ_of_ne_zero (Nat.ne_of_gt allowed)
  constructor
  · rw [shown_silent, events, hstart, hreport, hbudget]
    simp [Iteration.events_of_advance running advanced, Iteration.events_at_converged converged]
  · simp only [run, hstart, hreport, hbudget]
    rw [Iteration.runFrom_of_pass rfl, Iteration.continueFor_of_pass running advanced rfl,
      Iteration.continueFor_at_converged converged]
    rfl

end Procedure

end LocalOptimization
