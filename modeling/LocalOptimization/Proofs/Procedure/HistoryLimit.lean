import LocalOptimization.Proofs.Broyden
import LocalOptimization.Proofs.Constrained.ProjectedGradient
import LocalOptimization.Proofs.Procedure.Methods
import LocalOptimization.Proofs.Procedure.Projection

/-!
# What a limit does to the history of a result

With a limit on its history, a method shows the same events and comes to the same result, whose
history holds the last records only: no iteration looks at the history, so that imposing a limit is
a projection. The limit of the inner runs of a reduction has no effect at all.
-/

namespace LocalOptimization

def Ending.limitedTo {S R : Type} (limit : Option Nat) (e : Ending S R) : Ending S R :=
  { e with history := e.history.limitedTo limit }

theorem Iteration.projects_limitedTo {S E R ε : Type} (m : Iteration S E R ε)
    (limit : Option Nat) : m.Projects m id id (History.limitedTo limit) none limit where
  converged _ := rfl
  advance i s := by
    rw [id_eq]
    cases m.advance i s with
    | error e => rfl
    | ok next => cases next <;> rfl
  empty := History.limitedTo_empty limit
  push _ _ unlimited := History.limitedTo_push limit unlimited _
  convergenceFirst := rfl

/-- Under the eyes of any observer the two show the same events and leave it in the same state. The
result of the first is made from that of the second. -/
structure Solver.DiffersBy {E ε A : Type} (trim : A → A) (solve solve' : Solver E ε A) : Prop where
  result : ∀ σ o w, (solve σ o w).1 = (solve' σ o w).1.map trim
  observer : ∀ σ o w, (solve σ o w).2 = (solve' σ o w).2
  shown : ∀ (σ : Type) (o : Observer σ E) (w : σ), solve.shown o w = solve'.shown o w

theorem Procedure.run_limit {S E R ε A : Type} (p : Procedure S E R ε A) (limit : Option Nat)
    {trim : A → A} (hsolution : ∀ e, p.solution (e.limitedTo limit) = trim (p.solution e)) :
    Solver.DiffersBy trim { p with limit }.run { p with limit := none }.run := by
  have projects : { p with limit := none }.Projects { p with limit } id id
      (History.limitedTo limit) trim := {
    start := by cases p.start <;> rfl
    startEvent := rfl
    iteration := p.iteration.projects_limitedTo limit
    budget := rfl
    solution := hsolution }
  have hrun (σ : Type) (o : Observer σ E) (w : σ) :
      { p with limit }.run σ o w =
        (({ p with limit := none }.run σ o w).1.map trim,
          ({ p with limit := none }.run σ o w).2) :=
    projects.run_map o w
  refine ⟨?_, ?_, ?_⟩ <;> intro σ o w
  · rw [hrun]
  · rw [hrun]
  · rw [Solver.shown, hrun]
    rfl

variable {K : Type} [Scalar K] {n : Nat} {ε : Type}

namespace QuasiNewton

def Solution.limitedTo (limit : Option Nat) (sol : Solution K n) : Solution K n :=
  { sol with history := sol.history.limitedTo limit }

theorem minimize_limit (f : Objective K n ε) (x : Vector K n) (c : Config K)
    (limit : Option Nat) :
    Solver.DiffersBy (Solution.limitedTo limit)
      (fun _ => minimize f x { c with historyLimit := limit })
      (fun _ => minimize f x { c with historyLimit := none }) := by
  rw [← procedure_run, ← procedure_run]
  exact (procedure f x c).run_limit limit fun _ => rfl

theorem minimizeUnobserved_limit (f : Objective K n ε) (x : Vector K n) (c : Config K)
    (limit : Option Nat) :
    minimizeUnobserved f x { c with historyLimit := limit } =
      (minimizeUnobserved f x { c with historyLimit := none }).map (Solution.limitedTo limit) :=
  (minimize_limit f x c limit).result _ _ _

end QuasiNewton

namespace TrustRegion

def Solution.limitedTo (limit : Option Nat) (sol : Solution K n) : Solution K n :=
  { sol with history := sol.history.limitedTo limit }

theorem minimize_limit (f : Objective K n ε) (x : Vector K n) (c : Config K)
    (limit : Option Nat) :
    Solver.DiffersBy (Solution.limitedTo limit)
      (fun _ => minimize f x { c with historyLimit := limit })
      (fun _ => minimize f x { c with historyLimit := none }) := by
  rw [← procedure_run, ← procedure_run]
  exact (procedure f x c).run_limit limit fun _ => rfl

end TrustRegion

namespace Broyden

def Solution.limitedTo (limit : Option Nat) (sol : Solution K n) : Solution K n :=
  { sol with history := sol.history.limitedTo limit }

theorem procedure_limit (f : System K n ε) (x : Vector K n) (c : Config K) (limit : Option Nat) :
    procedure f x { c with historyLimit := limit } = { procedure f x c with limit } := by
  have hiteration : iteration f { c with historyLimit := limit } = iteration f c := by
    have hbacktrack : backtrack f { c with historyLimit := limit } = backtrack f c :=
      backtrack_congr rfl rfl
    simp only [iteration, State.advance, State.findStep, attempt, hbacktrack]
  rw [procedure, hiteration]
  rfl

theorem solve_limit (f : System K n ε) (x : Vector K n) (c : Config K) (limit : Option Nat) :
    Solver.DiffersBy (Solution.limitedTo limit)
      (fun _ => solve f x { c with historyLimit := limit })
      (fun _ => solve f x { c with historyLimit := none }) := by
  rw [← procedure_run, ← procedure_run, procedure_limit f x c limit, procedure_limit f x c none]
  exact (procedure f x c).run_limit limit fun _ => rfl

end Broyden

namespace Constrained

def Solution.limitedTo (limit : Option Nat) (sol : Solution K n) : Solution K n :=
  { sol with history := sol.history.limitedTo limit }

variable (f : Objective K n ε) (c : ConstraintSet K n) (x : Vector K n)

theorem ProjectedGradient.procedure_limit (b : Box K n) (config : Config K)
    (limit : Option Nat) :
    procedure f b x { config with historyLimit := limit } =
      { procedure f b x config with limit } := by
  have hiteration : iteration f b { config with historyLimit := limit } = iteration f b config := by
    have harc : arcSearch { config with historyLimit := limit } f b = arcSearch config f b :=
      arcSearch_congr rfl rfl
    simp only [iteration, harc]
  rw [procedure, hiteration]
  rfl

theorem ProjectedGradient.minimize_limit (b : Box K n) (config : Config K) (limit : Option Nat) :
    Solver.DiffersBy (Solution.limitedTo limit)
      (fun _ => minimize f b x { config with historyLimit := limit })
      (fun _ => minimize f b x { config with historyLimit := none }) := by
  rw [← procedure_run, ← procedure_run, procedure_limit f x b config limit,
    procedure_limit f x b config none]
  exact (procedure f b x config).run_limit limit fun _ => rfl

theorem Penalty.minimize_limit (config : Config K) (limit : Option Nat) :
    Solver.DiffersBy (Solution.limitedTo limit)
      (fun _ => minimize f c x { config with historyLimit := limit })
      (fun _ => minimize f c x { config with historyLimit := none }) := by
  rw [← procedure_run, ← procedure_run]
  exact (procedure f c x config).run_limit limit fun _ => rfl

theorem AugmentedLagrangian.minimize_limit (config : Config K) (limit : Option Nat) :
    Solver.DiffersBy (Solution.limitedTo limit)
      (fun _ => minimize f c x { config with historyLimit := limit })
      (fun _ => minimize f c x { config with historyLimit := none }) := by
  rw [← procedure_run, ← procedure_run]
  exact (procedure f c x config).run_limit limit fun _ => rfl

theorem Barrier.minimize_limit (config : Config K) (limit : Option Nat) :
    Solver.DiffersBy (Solution.limitedTo limit)
      (fun _ => minimize f c x { config with historyLimit := limit })
      (fun _ => minimize f c x { config with historyLimit := none }) := by
  rw [← procedure_run, ← procedure_run]
  exact (procedure f c x config).run_limit limit fun _ => rfl

/-- The reduction with this limit on the histories of its inner runs. -/
def Reduction.withInnerLimit (limit : Option Nat) (r : Reduction K n ε) : Reduction K n ε :=
  { r with innerConfig := fun parameter =>
      { r.innerConfig parameter with historyLimit := limit } }

namespace Reduction

variable (r : Reduction K n ε) (limit : Option Nat)

theorem advance_withInnerLimit (i : Nat) (s : State K n) :
    (r.withInnerLimit limit).advance f i s = r.advance f i s := by
  have hlimited := QuasiNewton.minimizeUnobserved_limit (r.surrogate s.parameter s.multipliers)
    s.last.x (r.innerConfig s.parameter) limit
  have hown := QuasiNewton.minimizeUnobserved_limit (r.surrogate s.parameter s.multipliers)
    s.last.x (r.innerConfig s.parameter) (r.innerConfig s.parameter).historyLimit
  simp only [advance, withInnerLimit, hlimited]
  rw [hown]
  cases QuasiNewton.minimizeUnobserved (r.surrogate s.parameter s.multipliers) s.last.x
    { r.innerConfig s.parameter with historyLimit := none } <;> rfl

theorem procedure_withInnerLimit (check : Except (Error K ε) Unit) (maxOuterIters : Nat)
    (historyLimit : Option Nat) :
    (r.withInnerLimit limit).procedure f x check maxOuterIters historyLimit =
      r.procedure f x check maxOuterIters historyLimit := by
  have hadvance : (r.withInnerLimit limit).advance f = r.advance f := by
    funext i s
    exact advance_withInnerLimit f r limit i s
  have hiteration : (r.withInnerLimit limit).iteration f = r.iteration f := by
    rw [iteration, hadvance]
    rfl
  rw [procedure, hiteration]
  rfl

end Reduction

section InnerLimit

variable (limit : Option Nat)

theorem Penalty.procedure_innerLimit (config : Config K) :
    procedure f c x { config with inner := { config.inner with historyLimit := limit } } =
      procedure f c x config :=
  (reduction f c config).procedure_withInnerLimit f x limit _ _ _

theorem AugmentedLagrangian.procedure_innerLimit (config : Config K) :
    procedure f c x { config with inner := { config.inner with historyLimit := limit } } =
      procedure f c x config :=
  (reduction f c config).procedure_withInnerLimit f x limit _ _ _

theorem Barrier.procedure_innerLimit (config : Config K) :
    procedure f c x { config with inner := { config.inner with historyLimit := limit } } =
      procedure f c x config :=
  (reduction f c config).procedure_withInnerLimit f x limit _ _ _

variable {σ : Type} (o : Observer σ (Record K n)) (w : σ)

theorem Penalty.minimize_innerLimit (config : Config K) :
    minimize f c x { config with inner := { config.inner with historyLimit := limit } } o w =
      minimize f c x config o w := by
  have h := congrArg Procedure.run (procedure_innerLimit f c x limit config)
  rw [procedure_run, procedure_run] at h
  exact congrFun (congrFun (congrFun h σ) o) w

theorem AugmentedLagrangian.minimize_innerLimit (config : Config K) :
    minimize f c x { config with inner := { config.inner with historyLimit := limit } } o w =
      minimize f c x config o w := by
  have h := congrArg Procedure.run (procedure_innerLimit f c x limit config)
  rw [procedure_run, procedure_run] at h
  exact congrFun (congrFun (congrFun h σ) o) w

theorem Barrier.minimize_innerLimit (config : Config K) :
    minimize f c x { config with inner := { config.inner with historyLimit := limit } } o w =
      minimize f c x config o w := by
  have h := congrArg Procedure.run (procedure_innerLimit f c x limit config)
  rw [procedure_run, procedure_run] at h
  exact congrFun (congrFun (congrFun h σ) o) w

end InnerLimit

end Constrained

/-- A limit on the history of a run changes nothing but that history, of which it keeps the last
records. A limit on the histories of inner runs changes nothing. -/
theorem limit_changes_history_only (f : Objective K n ε) (c : ConstraintSet K n) (b : Box K n)
    (system : Broyden.System K n ε) (x : Vector K n) (limit : Nat) :
    (∀ config : QuasiNewton.Config K, Solver.DiffersBy (.limitedTo (some limit))
      (fun _ => QuasiNewton.minimize f x { config with historyLimit := some limit })
      (fun _ => QuasiNewton.minimize f x { config with historyLimit := none })) ∧
    (∀ config : TrustRegion.Config K, Solver.DiffersBy (.limitedTo (some limit))
      (fun _ => TrustRegion.minimize f x { config with historyLimit := some limit })
      (fun _ => TrustRegion.minimize f x { config with historyLimit := none })) ∧
    (∀ config : Constrained.Penalty.Config K,
      Solver.DiffersBy (.limitedTo (some limit))
        (fun _ => Constrained.Penalty.minimize f c x { config with historyLimit := some limit })
        (fun _ => Constrained.Penalty.minimize f c x { config with historyLimit := none }) ∧
      ∀ innerLimit (σ : Type) (o : Observer σ (Constrained.Record K n)) w,
        Constrained.Penalty.minimize f c x
          { config with inner := { config.inner with historyLimit := innerLimit } } o w =
        Constrained.Penalty.minimize f c x config o w) ∧
    (∀ config : Constrained.Barrier.Config K,
      Solver.DiffersBy (.limitedTo (some limit))
        (fun _ => Constrained.Barrier.minimize f c x { config with historyLimit := some limit })
        (fun _ => Constrained.Barrier.minimize f c x { config with historyLimit := none }) ∧
      ∀ innerLimit (σ : Type) (o : Observer σ (Constrained.Record K n)) w,
        Constrained.Barrier.minimize f c x
          { config with inner := { config.inner with historyLimit := innerLimit } } o w =
        Constrained.Barrier.minimize f c x config o w) ∧
    (∀ config : Constrained.AugmentedLagrangian.Config K,
      Solver.DiffersBy (.limitedTo (some limit))
        (fun _ => Constrained.AugmentedLagrangian.minimize f c x
          { config with historyLimit := some limit })
        (fun _ => Constrained.AugmentedLagrangian.minimize f c x
          { config with historyLimit := none }) ∧
      ∀ innerLimit (σ : Type) (o : Observer σ (Constrained.Record K n)) w,
        Constrained.AugmentedLagrangian.minimize f c x
          { config with inner := { config.inner with historyLimit := innerLimit } } o w =
        Constrained.AugmentedLagrangian.minimize f c x config o w) ∧
    (∀ config : Constrained.ProjectedGradient.Config K,
      Solver.DiffersBy (.limitedTo (some limit))
        (fun _ => Constrained.ProjectedGradient.minimize f b x
          { config with historyLimit := some limit })
        (fun _ => Constrained.ProjectedGradient.minimize f b x
          { config with historyLimit := none })) ∧
    ∀ config : Broyden.Config K, Solver.DiffersBy (.limitedTo (some limit))
      (fun _ => Broyden.solve system x { config with historyLimit := some limit })
      (fun _ => Broyden.solve system x { config with historyLimit := none }) := by
  refine ⟨?_, ?_, ?_, ?_, ?_, ?_, ?_⟩ <;> intro config
  · exact QuasiNewton.minimize_limit f x config (some limit)
  · exact TrustRegion.minimize_limit f x config (some limit)
  · refine ⟨Constrained.Penalty.minimize_limit f c x config (some limit), ?_⟩
    intro innerLimit σ o w
    exact Constrained.Penalty.minimize_innerLimit f c x innerLimit o w config
  · refine ⟨Constrained.Barrier.minimize_limit f c x config (some limit), ?_⟩
    intro innerLimit σ o w
    exact Constrained.Barrier.minimize_innerLimit f c x innerLimit o w config
  · refine ⟨Constrained.AugmentedLagrangian.minimize_limit f c x config (some limit), ?_⟩
    intro innerLimit σ o w
    exact Constrained.AugmentedLagrangian.minimize_innerLimit f c x innerLimit o w config
  · exact Constrained.ProjectedGradient.minimize_limit f x b config (some limit)
  · exact Broyden.solve_limit system x config (some limit)

end LocalOptimization
