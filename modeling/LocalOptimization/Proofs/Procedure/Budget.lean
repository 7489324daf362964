import LocalOptimization.Proofs.Broyden
import LocalOptimization.Proofs.Constrained.ProjectedGradient
import LocalOptimization.Proofs.Procedure.Methods
import LocalOptimization.Proofs.Procedure.Outcome
import LocalOptimization.Proofs.Run.Budget
import LocalOptimization.Proofs.Univariate

/-!
# Methods with a larger budget

With a larger budget a method does what it did with the smaller one, and more only if it was the
budget that ended the run. No iteration depends on the budget, and of the start only the check that
an iteration is allowed.
-/

namespace LocalOptimization

/-- The second of two methods, which has the larger budget, extends the runs of the first: they are
the same unless the first spends its budget, and then the second shows the same events before any
others. -/
structure Solver.ExtendedBy {E R ε A σ : Type} (status : A → Status) (history : A → History R)
    (limit : Option Nat) (solve solve' : Solver E ε A) (o : Observer σ E) (w : σ) : Prop where
  same : (∀ a, (solve σ o w).1 = .ok a → status a ≠ .exhausted) →
    solve' σ o w = solve σ o w ∧ solve'.shown o w = solve.shown o w
  shown : solve.shown o w <+: solve'.shown o w
  history : limit = none → ∀ a a', (solve σ o w).1 = .ok a → (solve' σ o w).1 = .ok a' →
    (history a).toList <+: (history a').toList

namespace Procedure

variable {S E R ε A σ : Type} {p : Procedure S E R ε A} {o : Observer σ E} {w : σ}

/-- The run that came to `r` has spent its budget, and the one that came to `r'` went on from there
by these events. -/
structure GoesOn (p : Procedure S E R ε A) (o : Observer σ E) (r r' : Except ε A × σ)
    (events : List E) : Prop where
  exhausted : ∃ e, r.1 = .ok (p.solution e) ∧ e.status = .exhausted ∧
    ∀ a', r'.1 = .ok a' → ∃ e', p.solution e' = a' ∧
      e'.history = (events.map p.iteration.record).foldl .push e.history
  observer : r'.2 = o.after r.2 events

theorem GoesOn.of_iteration {r r' : Except ε (Ending S R) × σ} {events : List E}
    (goesOn : p.iteration.GoesOn o r r' events) :
    p.GoesOn o (r.1.map p.solution, r.2) (r'.1.map p.solution, r'.2) events := by
  obtain ⟨e, he, hstatus, hhistory⟩ := goesOn.exhausted
  refine ⟨⟨e, by rw [he]; rfl, hstatus, ?_⟩, goesOn.observer⟩
  intro a' ha'
  obtain ⟨e', he', rfl⟩ := Except.map_eq_ok_iff.mp ha'
  exact ⟨e', rfl, hhistory e' he'⟩

theorem run_budget_cases {budget : Nat} (larger : p.budget ≤ budget) (o : Observer σ E) (w : σ) :
    { p with budget }.run σ o w = p.run σ o w ∨
      ∃ events, p.GoesOn o (p.run σ o w) ({ p with budget }.run σ o w) events := by
  obtain ⟨extra, rfl⟩ := Nat.exists_eq_add_of_le larger
  simp only [run]
  cases p.start with
  | error e => exact .inl rfl
  | ok s =>
      cases p.startEvent with
      | none =>
          rcases p.iteration.run_budget_cases o p.budget extra p.limit s w with hsame | ⟨events, h⟩
          · exact .inl (by simp only [hsame])
          · exact .inr ⟨events, .of_iteration h⟩
      | some report =>
          rcases p.iteration.runFrom_budget_cases o p.budget extra p.limit s (report s) w with
            hsame | ⟨events, h⟩
          · exact .inl (by simp only [hsame])
          · exact .inr ⟨events, .of_iteration h⟩

theorem run_budget_of_not_exhausted {budget : Nat} (larger : p.budget ≤ budget)
    (unspent : ∀ e, (p.run σ o w).1 = .ok (p.solution e) → e.status ≠ .exhausted) :
    { p with budget }.run σ o w = p.run σ o w := by
  rcases run_budget_cases larger o w with hsame | ⟨events, goesOn⟩
  · exact hsame
  · obtain ⟨e, he, hexhausted, -⟩ := goesOn.exhausted
    exact absurd hexhausted (unspent e he)

theorem shown_budget {budget : Nat} (larger : p.budget ≤ budget) (o : Observer σ E) (w : σ) :
    p.run.shown o w <+: { p with budget }.run.shown o w := by
  simp only [Solver.shown]
  rcases run_budget_cases larger o.logging (w, #[]) with hsame | ⟨events, goesOn⟩
  · rw [hsame]
  · rw [goesOn.observer, Observer.after_logging]
    exact ⟨events, by simp⟩

theorem limit_of_run {history : A → History R} (hhistory : ∀ e, history (p.solution e) = e.history)
    {a : A} (h : (p.run σ o w).1 = .ok a) : (history a).limit = p.limit := by
  obtain ⟨first, events, e, -, outcome, rfl⟩ := exists_outcome_of_run rfl h
  rw [hhistory, outcome.history, History.limit_foldl_push]
  rfl

theorem history_budget {history : A → History R}
    (hhistory : ∀ e, history (p.solution e) = e.history) {budget : Nat}
    (larger : p.budget ≤ budget) (unlimited : p.limit = none) {a a' : A}
    (h : (p.run σ o w).1 = .ok a) (h' : ({ p with budget }.run σ o w).1 = .ok a') :
    (history a).toList <+: (history a').toList := by
  have hlimit := limit_of_run hhistory h
  rcases run_budget_cases larger o w with hsame | ⟨events, goesOn⟩
  · rw [hsame, h] at h'
    cases h'
    exact List.prefix_refl _
  · obtain ⟨e, he, -, hafter⟩ := goesOn.exhausted
    obtain ⟨e', rfl, hhistory'⟩ := hafter a' h'
    rw [h] at he
    cases he
    rw [hhistory] at hlimit
    rw [hhistory, hhistory, hhistory', History.toList_foldl_push_of_limit_eq_none _
      (hlimit.trans unlimited)]
    exact List.prefix_append _ _

theorem run_budget (p : Procedure S E R ε A) {status : A → Status} {history : A → History R}
    (hstatus : ∀ e, status (p.solution e) = e.status)
    (hhistory : ∀ e, history (p.solution e) = e.history) {budget : Nat}
    (larger : p.budget ≤ budget) (o : Observer σ E) (w : σ) :
    Solver.ExtendedBy status history p.limit p.run { p with budget }.run o w := by
  refine ⟨?_, shown_budget larger o w, ?_⟩
  · intro unspent
    have hunspent (e : Ending S R) (h : (p.run σ o w).1 = .ok (p.solution e)) :
        e.status ≠ .exhausted := hstatus e ▸ unspent _ h
    refine ⟨run_budget_of_not_exhausted larger hunspent, ?_⟩
    have hlogging : (p.run _ o.logging (w, #[])).1 = (p.run σ o w).1 := by rw [run_logging]
    have hlogged := run_budget_of_not_exhausted (o := o.logging) (w := (w, #[])) larger
      fun e h => hunspent e (hlogging.symm.trans h)
    simp only [Solver.shown, hlogged]
  · intro unlimited a a' h h'
    exact history_budget hhistory larger unlimited h h'

end Procedure

variable {K : Type} [Scalar K] {n : Nat} {ε σ : Type} {budget : Nat}

theorem QuasiNewton.minimize_budget (f : Objective K n ε) (x : Vector K n) {c : Config K}
    (larger : c.maxIters ≤ budget) (o : Observer σ (Event K n)) (w : σ) :
    Solver.ExtendedBy Solution.status Solution.history c.historyLimit
      (fun _ => minimize f x c) (fun _ => minimize f x { c with maxIters := budget }) o w := by
  rw [← procedure_run, ← procedure_run]
  exact (procedure f x c).run_budget (fun _ => rfl) (fun _ => rfl) larger o w

theorem TrustRegion.minimize_budget (f : Objective K n ε) (x : Vector K n) {c : Config K}
    (larger : c.maxIters ≤ budget) (o : Observer σ (Event K n)) (w : σ) :
    Solver.ExtendedBy Solution.status Solution.history c.historyLimit
      (fun _ => minimize f x c) (fun _ => minimize f x { c with maxIters := budget }) o w := by
  rw [← procedure_run, ← procedure_run]
  exact (procedure f x c).run_budget (fun _ => rfl) (fun _ => rfl) larger o w

namespace Broyden

variable {f : System K n ε} {x : Vector K n} {c : Config K}

theorem procedure_budget (valid : c.Valid) (larger : c.maxIters ≤ budget) :
    procedure f x { c with maxIters := budget } = { procedure f x c with budget } := by
  have hvalid : ({ c with maxIters := budget } : Config K).Valid :=
    { valid with allowed := Nat.lt_of_lt_of_le valid.allowed larger }
  have hstart : start f { c with maxIters := budget } x = start f c x := by
    rw [start, start, Config.validate_eq_ok_iff.mpr hvalid, Config.validate_eq_ok_iff.mpr valid]
  have hbacktrack : backtrack f { c with maxIters := budget } = backtrack f c :=
    backtrack_congr rfl rfl
  have hiteration : iteration f { c with maxIters := budget } = iteration f c := by
    simp only [iteration, State.advance, State.findStep, attempt, hbacktrack]
  rw [procedure, hstart, hiteration]
  rfl

theorem solve_budget (valid : c.Valid) (larger : c.maxIters ≤ budget)
    (o : Observer σ (Event K n)) (w : σ) :
    Solver.ExtendedBy Solution.status Solution.history c.historyLimit
      (fun _ => solve f x c) (fun _ => solve f x { c with maxIters := budget }) o w := by
  rw [← procedure_run, ← procedure_run, procedure_budget valid larger]
  exact (procedure f x c).run_budget (fun _ => rfl) (fun _ => rfl) larger o w

end Broyden

namespace Constrained

variable {f : Objective K n ε} {c : ConstraintSet K n} {b : Box K n} {x : Vector K n}
variable {o : Observer σ (Record K n)} {w : σ}

theorem ProjectedGradient.procedure_budget {config : Config K} (valid : config.Valid)
    (larger : config.maxIters ≤ budget) :
    procedure f b x { config with maxIters := budget } =
      { procedure f b x config with budget } := by
  have hvalid : ({ config with maxIters := budget } : Config K).Valid :=
    { valid with allowed := Nat.lt_of_lt_of_le valid.allowed larger }
  have hstart : start f b x { config with maxIters := budget } = start f b x config := by
    rw [start, start, Config.validate_eq_ok_iff.mpr hvalid, Config.validate_eq_ok_iff.mpr valid]
  have harc : arcSearch { config with maxIters := budget } f b = arcSearch config f b :=
    arcSearch_congr rfl rfl
  have hiteration : iteration f b { config with maxIters := budget } = iteration f b config := by
    simp only [iteration, harc]
  rw [procedure, hstart, hiteration]
  rfl

theorem ProjectedGradient.minimize_budget {config : Config K} (valid : config.Valid)
    (larger : config.maxIters ≤ budget) :
    Solver.ExtendedBy Solution.status Solution.history config.historyLimit
      (fun _ => minimize f b x config)
      (fun _ => minimize f b x { config with maxIters := budget }) o w := by
  rw [← procedure_run, ← procedure_run, procedure_budget valid larger]
  exact (procedure f b x config).run_budget (fun _ => rfl) (fun _ => rfl) larger o w

theorem Accepted.larger {initial growth : K} {greatest : Option K} {tolerance : K}
    {maxOuterIters : Nat} {inner : QuasiNewton.Config K}
    (accepted : Accepted initial growth greatest tolerance maxOuterIters inner)
    (larger : maxOuterIters ≤ budget) : Accepted initial growth greatest tolerance budget inner :=
  { accepted with allowed := Nat.lt_of_lt_of_le accepted.allowed larger }

theorem Reduction.procedure_budget (r : Reduction K n ε) {check check' : Except (Error K ε) Unit}
    (hcheck : check' = check) {maxOuterIters : Nat} {historyLimit : Option Nat}
    (larger : maxOuterIters ≤ budget) :
    Solver.ExtendedBy Solution.status Solution.history historyLimit
      (r.procedure f x check maxOuterIters historyLimit).run
      (r.procedure f x check' budget historyLimit).run o w := by
  rw [hcheck]
  exact (r.procedure f x check maxOuterIters historyLimit).run_budget (fun _ => rfl) (fun _ => rfl)
    larger o w

theorem Penalty.minimize_budget {config : Config K} (valid : config.Valid)
    (larger : config.maxOuterIters ≤ budget) :
    Solver.ExtendedBy Solution.status Solution.history config.historyLimit
      (fun _ => minimize f c x config)
      (fun _ => minimize f c x { config with maxOuterIters := budget }) o w := by
  have hvalid : ({ config with maxOuterIters := budget } : Config K).Valid := valid.larger larger
  rw [← procedure_run, ← procedure_run]
  refine (reduction f c config).procedure_budget ?_ larger
  rw [Config.validate_eq_ok_iff.mpr hvalid, Config.validate_eq_ok_iff.mpr valid]

theorem AugmentedLagrangian.minimize_budget {config : Config K} (valid : config.Valid)
    (larger : config.maxOuterIters ≤ budget) :
    Solver.ExtendedBy Solution.status Solution.history config.historyLimit
      (fun _ => minimize f c x config)
      (fun _ => minimize f c x { config with maxOuterIters := budget }) o w := by
  have hvalid : ({ config with maxOuterIters := budget } : Config K).Valid := valid.larger larger
  rw [← procedure_run, ← procedure_run]
  refine (reduction f c config).procedure_budget ?_ larger
  rw [Config.validate_eq_ok_iff.mpr hvalid, Config.validate_eq_ok_iff.mpr valid]

theorem Barrier.minimize_budget {config : Config K} (valid : config.Valid)
    (larger : config.maxOuterIters ≤ budget) :
    Solver.ExtendedBy Solution.status Solution.history config.historyLimit
      (fun _ => minimize f c x config)
      (fun _ => minimize f c x { config with maxOuterIters := budget }) o w := by
  have hvalid : ({ config with maxOuterIters := budget } : Config K).Valid := valid.larger larger
  rw [← procedure_run, ← procedure_run]
  refine (reduction f c config).procedure_budget ?_ larger
  rw [Config.validate_eq_ok_iff.mpr hvalid, Config.validate_eq_ok_iff.mpr valid]

end Constrained

/-- A larger budget only extends a run. Whether the parameters are accepted may depend on the
budget, except with the descent methods, whose budget may be 0. -/
theorem larger_budget_extends (f : Objective K n ε) (c : ConstraintSet K n) (b : Box K n)
    (system : Broyden.System K n ε) (x : Vector K n) (budget : Nat) (σ : Type) :
    (∀ config : QuasiNewton.Config K, config.maxIters ≤ budget →
      ∀ (o : Observer σ (QuasiNewton.Event K n)) w,
        Solver.ExtendedBy (·.status) (·.history) config.historyLimit
          (fun _ => QuasiNewton.minimize f x config)
          (fun _ => QuasiNewton.minimize f x { config with maxIters := budget }) o w) ∧
    (∀ config : TrustRegion.Config K, config.maxIters ≤ budget →
      ∀ (o : Observer σ (TrustRegion.Event K n)) w,
        Solver.ExtendedBy (·.status) (·.history) config.historyLimit
          (fun _ => TrustRegion.minimize f x config)
          (fun _ => TrustRegion.minimize f x { config with maxIters := budget }) o w) ∧
    (∀ config : Constrained.Penalty.Config K, config.validate = .ok () →
      config.maxOuterIters ≤ budget → ∀ (o : Observer σ (Constrained.Record K n)) w,
        Solver.ExtendedBy (·.status) (·.history) config.historyLimit
          (fun _ => Constrained.Penalty.minimize f c x config)
          (fun _ => Constrained.Penalty.minimize f c x
            { config with maxOuterIters := budget }) o w) ∧
    (∀ config : Constrained.Barrier.Config K, config.validate = .ok () →
      config.maxOuterIters ≤ budget → ∀ (o : Observer σ (Constrained.Record K n)) w,
        Solver.ExtendedBy (·.status) (·.history) config.historyLimit
          (fun _ => Constrained.Barrier.minimize f c x config)
          (fun _ => Constrained.Barrier.minimize f c x
            { config with maxOuterIters := budget }) o w) ∧
    (∀ config : Constrained.AugmentedLagrangian.Config K, config.validate = .ok () →
      config.maxOuterIters ≤ budget → ∀ (o : Observer σ (Constrained.Record K n)) w,
        Solver.ExtendedBy (·.status) (·.history) config.historyLimit
          (fun _ => Constrained.AugmentedLagrangian.minimize f c x config)
          (fun _ => Constrained.AugmentedLagrangian.minimize f c x
            { config with maxOuterIters := budget }) o w) ∧
    (∀ config : Constrained.ProjectedGradient.Config K, config.validate = .ok () →
      config.maxIters ≤ budget → ∀ (o : Observer σ (Constrained.Record K n)) w,
        Solver.ExtendedBy (·.status) (·.history) config.historyLimit
          (fun _ => Constrained.ProjectedGradient.minimize f b x config)
          (fun _ => Constrained.ProjectedGradient.minimize f b x
            { config with maxIters := budget }) o w) ∧
    ∀ config : Broyden.Config K, config.validate = .ok () → config.maxIters ≤ budget →
      ∀ (o : Observer σ (Broyden.Event K n)) w,
        Solver.ExtendedBy (·.status) (·.history) config.historyLimit
          (fun _ => Broyden.solve system x config)
          (fun _ => Broyden.solve system x { config with maxIters := budget }) o w := by
  refine ⟨?_, ?_, ?_, ?_, ?_, ?_, ?_⟩
  · intro config larger o w
    exact QuasiNewton.minimize_budget f x larger o w
  · intro config larger o w
    exact TrustRegion.minimize_budget f x larger o w
  · intro config hvalid larger o w
    exact Constrained.Penalty.minimize_budget
      (Constrained.Penalty.Config.validate_eq_ok_iff.mp hvalid) larger
  · intro config hvalid larger o w
    exact Constrained.Barrier.minimize_budget
      (Constrained.Barrier.Config.validate_eq_ok_iff.mp hvalid) larger
  · intro config hvalid larger o w
    exact Constrained.AugmentedLagrangian.minimize_budget
      (Constrained.AugmentedLagrangian.Config.validate_eq_ok_iff.mp hvalid) larger
  · intro config hvalid larger o w
    exact Constrained.ProjectedGradient.minimize_budget
      (Constrained.ProjectedGradient.Config.validate_eq_ok_iff.mp hvalid) larger
  · intro config hvalid larger o w
    exact Broyden.solve_budget (Broyden.Config.validate_eq_ok_iff.mp hvalid) larger o w

theorem larger_budget_extends_square :
    Solver.ExtendedBy (·.status) (·.history) none
      (fun _ => QuasiNewton.minimize square #v[2.0] { maxIters := 1 })
      (fun _ => QuasiNewton.minimize square #v[2.0] { maxIters := 2 })
      (.silent : Observer Unit _) () ∧
    Solver.ExtendedBy (·.status) (·.history) none
      (fun _ => TrustRegion.minimize square #v[2.0] { maxIters := 1 })
      (fun _ => TrustRegion.minimize square #v[2.0] { maxIters := 2 })
      (.silent : Observer Unit _) () ∧
    Solver.ExtendedBy (·.status) (·.history) none
      (fun _ => Constrained.Penalty.minimize square atMostThree #v[2.0] { maxOuterIters := 1 })
      (fun _ => Constrained.Penalty.minimize square atMostThree #v[2.0] { maxOuterIters := 2 })
      (.silent : Observer Unit _) () ∧
    Solver.ExtendedBy (·.status) (·.history) none
      (fun _ => Constrained.Barrier.minimize square atMostThree #v[2.0] { maxOuterIters := 1 })
      (fun _ => Constrained.Barrier.minimize square atMostThree #v[2.0] { maxOuterIters := 2 })
      (.silent : Observer Unit _) () ∧
    Solver.ExtendedBy (·.status) (·.history) none
      (fun _ => Constrained.AugmentedLagrangian.minimize square atMostThree #v[2.0]
        { maxOuterIters := 1 })
      (fun _ => Constrained.AugmentedLagrangian.minimize square atMostThree #v[2.0]
        { maxOuterIters := 2 })
      (.silent : Observer Unit _) () ∧
    Solver.ExtendedBy (·.status) (·.history) none
      (fun _ => Constrained.ProjectedGradient.minimize square atLeastOne #v[2.0] { maxIters := 1 })
      (fun _ => Constrained.ProjectedGradient.minimize square atLeastOne #v[2.0] { maxIters := 2 })
      (.silent : Observer Unit _) () ∧
    Solver.ExtendedBy (·.status) (·.history) none
      (fun _ => Broyden.solve square.gradient #v[2.0] { maxIters := 1 })
      (fun _ => Broyden.solve square.gradient #v[2.0] { maxIters := 2 })
      (.silent : Observer Unit _) () := by
  obtain ⟨quasiNewton, trustRegion, penalty, barrier, augmentedLagrangian, projectedGradient,
    broyden⟩ := larger_budget_extends square atMostThree atLeastOne square.gradient #v[2.0] 2 Unit
  refine ⟨?_, ?_, ?_, ?_, ?_, ?_, ?_⟩
  · exact quasiNewton { maxIters := 1 } (by decide) .silent ()
  · exact trustRegion { maxIters := 1 } (by decide) .silent ()
  · exact penalty { maxOuterIters := 1 } (by decide +kernel) (by decide) .silent ()
  · exact barrier { maxOuterIters := 1 } (by decide +kernel) (by decide) .silent ()
  · exact augmentedLagrangian { maxOuterIters := 1 } (by decide +kernel) (by decide) .silent ()
  · exact projectedGradient { maxIters := 1 } (by decide +kernel) (by decide) .silent ()
  · exact broyden { maxIters := 1 } (by decide +kernel) (by decide) .silent ()

end LocalOptimization
