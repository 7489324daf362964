import LocalOptimization.Observer

/-!
# Following a run

A trace writes one log entry for every event, under a label, and never asks to stop.
-/

namespace LocalOptimization

/-- What is logged of an event. -/
structure Trace.Entry (K : Type) where
  iteration : Nat
  /-- The objective at the event's iterate. -/
  objective : K

/-- A log under a label. -/
structure Trace (K : Type) where
  /-- The label of every entry. -/
  label : String
  entries : Array (Trace.Entry K) := #[]

namespace Trace

variable {K : Type}

/-- The severity under which entries are logged. -/
def level : String :=
  "INFO"

/-- The text of every entry. -/
def message : String :=
  "solver event"

/-- Appends an entry. -/
def log (t : Trace K) (entry : Entry K) : Trace K :=
  { t with entries := t.entries.push entry }

/-- Logs every event. -/
def observer : Observer (Trace K) (Entry K) where
  observe t entry := (false, t.log entry)

end Trace

end LocalOptimization
