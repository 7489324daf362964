import LocalOptimization.History
import LocalOptimization.Observer

/-!
# Runs of iterative methods

All methods run in one way: while the budget lasts and the state has not converged, they advance,
record the iteration and report it to the observer. A method may also give up, or fail with an
error; the observer's state is kept in every case.
-/

namespace LocalOptimization

/-- Why a run ended. -/
inductive Status where
  /-- The convergence test was met. -/
  | converged
  /-- The iteration budget was spent. -/
  | exhausted
  /-- The method could not make progress. -/
  | gaveUp
  /-- The observer asked to stop. -/
  | stopped
  deriving DecidableEq, Repr

/-- An iterative method with states `S`, events `E`, records `R` and errors `ε`. -/
structure Iteration (S E R ε : Type) where
  /-- The state meets the convergence test. -/
  converged : S → Bool
  /-- The iteration of the given number: the next state and its event, or `none` to give up. -/
  advance : Nat → S → Except ε (Option (S × E))
  /-- What is recorded of an event. -/
  record : E → R
  /-- A request to stop at a state that has converged counts as convergence. -/
  convergenceFirst : Bool

/-- How far a run has come. -/
structure Progress (S R : Type) where
  state : S
  iterations : Nat
  history : History R

/-- A run that has ended. -/
structure Ending (S R : Type) extends Progress S R where
  status : Status

namespace Iteration

variable {S E R ε σ : Type} (m : Iteration S E R ε) (o : Observer σ E)

/-- The status when the budget is spent. -/
def statusAtBudget (s : S) : Status :=
  if m.converged s then .converged else .exhausted

/-- The status when the observer asks to stop. -/
def statusAtStop (s : S) : Status :=
  if m.convergenceFirst && m.converged s then .converged else .stopped

/-- Continues with at most `budget` iterations. -/
def continueFor : Nat → Progress S R → σ → Except ε (Ending S R) × σ
  | 0, p, s => (.ok { p with status := m.statusAtBudget p.state }, s)
  | budget + 1, p, s =>
      if m.converged p.state then
        (.ok { p with status := .converged }, s)
      else
        match m.advance (p.iterations + 1) p.state with
        | .error e => (.error e, s)
        | .ok none => (.ok { p with status := .gaveUp }, s)
        | .ok (some (state, event)) =>
            let q : Progress S R :=
              { state, iterations := p.iterations + 1, history := p.history.push (m.record event) }
            match o.observe s event with
            | (true, s) => (.ok { q with status := m.statusAtStop state }, s)
            | (false, s) => continueFor budget q s

/-- Runs from a state that is not itself reported. -/
def run (budget : Nat) (limit : Option Nat) (state : S) (s : σ) : Except ε (Ending S R) × σ :=
  m.continueFor o budget { state, iterations := 0, history := .empty limit } s

/-- Runs from a state that is recorded and reported as iteration 0. -/
def runFrom (budget : Nat) (limit : Option Nat) (state : S) (event : E) (s : σ) :
    Except ε (Ending S R) × σ :=
  let p : Progress S R :=
    { state, iterations := 0, history := (History.empty limit).push (m.record event) }
  match o.observe s event with
  | (true, s) => (.ok { p with status := m.statusAtStop state }, s)
  | (false, s) => m.continueFor o budget p s

end Iteration

end LocalOptimization
