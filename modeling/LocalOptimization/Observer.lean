/-!
# Observers

An observer is told the events of a run, one by one, and may ask the run to stop. What it
remembers is its own state `σ`, which survives a run that fails.
-/

namespace LocalOptimization

/-- A watcher of events: from its state and an event, whether to stop, and its next state. -/
structure Observer (σ E : Type) where
  observe : σ → E → Bool × σ

namespace Observer

variable {σ E F : Type}

/-- The observer that never asks to stop. -/
def silent : Observer Unit E where
  observe _ _ := (false, ())

/-- Asks to stop at every event that satisfies `p`. -/
def stopWhen (p : E → Bool) : Observer Unit E where
  observe _ event := (p event, ())

/-- Decides as `o` does and keeps every event. -/
def logging (o : Observer σ E) : Observer (σ × Array E) E where
  observe s event :=
    let (stop, next) := o.observe s.1 event
    (stop, next, s.2.push event)

/-- Shows `o` a part of every event. -/
def contramap (part : F → E) (o : Observer σ E) : Observer σ F where
  observe s event := o.observe s (part event)

end Observer

end LocalOptimization
