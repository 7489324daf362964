import LocalOptimization.Observer
import LocalOptimization.Scalar

/-!
# Stopping a run that no longer improves

An objective improves when it lies below the best one by more than a tolerance, or by any amount
while nothing finite has been seen. A run stalls after `patience` events in a row without an
improvement; an undefined objective is none.
-/

namespace LocalOptimization

/-- The memory of a stall detector. -/
structure Stall (K : Type) where
  /-- The events without an improvement that are waited for. -/
  patience : Nat
  /-- The amount by which an objective has to improve. -/
  tolerance : K
  /-- The objective of the last improvement. -/
  best : K
  /-- The events since the last improvement. -/
  sinceBest : Nat

namespace Stall

variable {K : Type} [Scalar K]

/-- The detector before any event. It waits for one event at least. -/
def start (patience : Nat) (tolerance : K) : Stall K where
  patience := Nat.max patience 1
  tolerance
  best := Scalar.infinity
  sinceBest := 0

/-- The objective is an improvement. -/
def improves (s : Stall K) (objective : K) : Bool :=
  if Scalar.isFinite s.best then decide (objective < s.best - s.tolerance)
  else decide (objective < s.best)

/-- Takes in an objective and tells whether patience has run out. -/
def feed (s : Stall K) (objective : K) : Bool × Stall K :=
  if s.improves objective then
    (false, { s with best := objective, sinceBest := 0 })
  else
    let sinceBest := s.sinceBest + 1
    (decide (s.patience ≤ sinceBest), { s with sinceBest })

/-- Asks to stop once patience has run out. -/
def observer : Observer (Stall K) K where
  observe := feed

end Stall

end LocalOptimization
