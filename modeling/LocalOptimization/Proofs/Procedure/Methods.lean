import LocalOptimization.Broyden.Solver
import LocalOptimization.Constrained.AugmentedLagrangian
import LocalOptimization.Constrained.Barrier
import LocalOptimization.Constrained.Penalty
import LocalOptimization.Constrained.ProjectedGradient
import LocalOptimization.Proofs.Procedure
import LocalOptimization.QuasiNewton.Solver
import LocalOptimization.TrustRegion.Solver

/-!
# The methods as procedures

Descent methods and the solver of equations report their start; the constrained methods do not. A
reduction starts behind the checks of its method.
-/

namespace LocalOptimization

variable {K : Type} [Scalar K] {n : Nat} {ε : Type}

namespace QuasiNewton

def procedure (f : Objective K n ε) (x : Vector K n) (c : Config K) :
    Procedure (State K n) (Event K n) (Record K n) (Error ε) (Solution K n) where
  start := start f c x
  startEvent := some fun s => s.event 0 0.0 false
  iteration := iteration f c
  budget := c.maxIters
  limit := c.historyLimit
  solution := solution c

theorem procedure_run (f : Objective K n ε) (x : Vector K n) (c : Config K) :
    (procedure f x c).run = fun _ => minimize f x c := by
  funext σ o w
  simp only [Procedure.run, procedure, minimize]
  cases start f c x <;> rfl

end QuasiNewton

namespace TrustRegion

def procedure (f : Objective K n ε) (x : Vector K n) (c : Config K) :
    Procedure (State K n) (Event K n) (Record K n) (Error ε) (Solution K n) where
  start := start f c x
  startEvent := some State.startEvent
  iteration := iteration f c
  budget := c.maxIters
  limit := c.historyLimit
  solution := solution c

theorem procedure_run (f : Objective K n ε) (x : Vector K n) (c : Config K) :
    (procedure f x c).run = fun _ => minimize f x c := by
  funext σ o w
  simp only [Procedure.run, procedure, minimize]
  cases start f c x <;> rfl

end TrustRegion

namespace Broyden

def procedure (f : System K n ε) (x : Vector K n) (c : Config K) :
    Procedure (State K n) (Event K n) (Record K n) (Error ε) (Solution K n) where
  start := start f c x
  startEvent := some fun s => s.event 0 0.0 true
  iteration := iteration f c
  budget := c.maxIters
  limit := c.historyLimit
  solution := solution

theorem procedure_run (f : System K n ε) (x : Vector K n) (c : Config K) :
    (procedure f x c).run = fun _ => solve f x c := by
  funext σ o w
  simp only [Procedure.run, procedure, solve]
  cases start f c x <;> rfl

end Broyden

namespace Constrained

namespace ProjectedGradient

def procedure (f : Objective K n ε) (b : Box K n) (x : Vector K n) (c : Config K) :
    Procedure (State K n) (Record K n) (Record K n) (Error K ε) (Solution K n) where
  start := start f b x c
  startEvent := none
  iteration := iteration f b c
  budget := c.maxIters
  limit := c.historyLimit
  solution := solution

theorem procedure_run (f : Objective K n ε) (b : Box K n) (x : Vector K n) (c : Config K) :
    (procedure f b x c).run = fun _ => minimize f b x c := by
  funext σ o w
  simp only [Procedure.run, procedure, minimize]
  cases start f b x c <;> rfl

end ProjectedGradient

/-- A reduction that runs once the check has passed. -/
def Reduction.procedure (r : Reduction K n ε) (f : Objective K n ε) (x : Vector K n)
    (check : Except (Error K ε) Unit) (maxOuterIters : Nat) (historyLimit : Option Nat) :
    Procedure (State K n) (Record K n) (Record K n) (Error K ε) (Solution K n) where
  start := check >>= fun () => r.start f x
  startEvent := none
  iteration := r.iteration f
  budget := maxOuterIters
  limit := historyLimit
  solution := r.solution

theorem Reduction.procedure_run (r : Reduction K n ε) (f : Objective K n ε) (x : Vector K n)
    (check : Except (Error K ε) Unit) (maxOuterIters : Nat) (historyLimit : Option Nat) {σ : Type}
    (o : Observer σ (Record K n)) (w : σ) :
    (r.procedure f x check maxOuterIters historyLimit).run σ o w =
      match check with
      | .error e => (.error e, w)
      | .ok () => r.minimize f x maxOuterIters historyLimit o w := by
  cases check with
  | error e => rfl
  | ok =>
      simp only [Procedure.run, procedure, minimize, bind, Except.bind]
      cases r.start f x <;> rfl

section Reductions

variable (f : Objective K n ε) (c : ConstraintSet K n) (x : Vector K n)

def Penalty.procedure (config : Config K) :
    Procedure (Reduction.State K n) (Record K n) (Record K n) (Error K ε) (Solution K n) :=
  (reduction f c config).procedure f x (config.validate.mapError .invalidConfig)
    config.maxOuterIters config.historyLimit

theorem Penalty.procedure_run (config : Config K) :
    (procedure f c x config).run = fun _ => minimize f c x config := by
  funext σ o w
  rw [procedure, Reduction.procedure_run]
  unfold minimize
  cases config.validate <;> rfl

def AugmentedLagrangian.procedure (config : Config K) :
    Procedure (Reduction.State K n) (Record K n) (Record K n) (Error K ε) (Solution K n) :=
  (reduction f c config).procedure f x (config.validate.mapError .invalidConfig)
    config.maxOuterIters config.historyLimit

theorem AugmentedLagrangian.procedure_run (config : Config K) :
    (procedure f c x config).run = fun _ => minimize f c x config := by
  funext σ o w
  rw [procedure, Reduction.procedure_run]
  unfold minimize
  cases config.validate <;> rfl

def Barrier.procedure (config : Config K) :
    Procedure (Reduction.State K n) (Record K n) (Record K n) (Error K ε) (Solution K n) :=
  (reduction f c config).procedure f x
    (config.validate.mapError .invalidConfig >>= fun () => checkStart c x)
    config.maxOuterIters config.historyLimit

theorem Barrier.procedure_run (config : Config K) :
    (procedure f c x config).run = fun _ => minimize f c x config := by
  funext σ o w
  rw [procedure, Reduction.procedure_run]
  unfold minimize
  cases config.validate.mapError .invalidConfig >>= fun () => checkStart c x <;> rfl

end Reductions

end Constrained

end LocalOptimization
