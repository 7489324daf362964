import LocalOptimization.Proofs.Broyden
import LocalOptimization.Proofs.Constrained.ProjectedGradient
import LocalOptimization.Proofs.Procedure.Methods
import LocalOptimization.Proofs.Procedure.Outcome
import LocalOptimization.Proofs.Procedure.Reports
import LocalOptimization.Proofs.TrustRegion.Transition
import LocalOptimization.Proofs.Univariate

/-!
# What a result says of its run

The status tells whether the last state has converged, unless the observer hid it, and whether the
budget is spent. The iterations are as many as the records, kept or dropped, which are numbered
consecutively, and the last of them is that of the result.
-/

namespace LocalOptimization

/-- A run with this budget has made these iterations, and has recorded them under the numbers from
`first` on. -/
structure Tally {R : Type} (number : R → Nat) (first budget iterations : Nat) (status : Status)
    (history : History R) : Prop where
  withinBudget : iterations ≤ budget
  exhausted : status = .exhausted → iterations = budget
  recorded : history.size + history.dropped + first = iterations + 1
  numbered : history.toList.map number = List.range' (history.dropped + first) history.size

namespace Procedure

variable {S E R ε A σ : Type} {p : Procedure S E R ε A} {first : S} {events : List E}
variable {e : Ending S R}

/-- The number of the first record: that of the start, if it is reported. -/
def firstNumber (p : Procedure S E R ε A) : Nat :=
  p.startEvent.elim 1 fun _ => 0

theorem length_reported (p : Procedure S E R ε A) (s : S) :
    (p.reported s).length + p.firstNumber = 1 := by
  rw [reported, firstNumber]
  cases p.startEvent <;> rfl

namespace Outcome

theorem length_add_firstNumber (outcome : p.Outcome first events e) :
    (p.reported first ++ events).length + p.firstNumber = e.iterations + 1 := by
  have hreported := p.length_reported first
  rw [outcome.iterations, List.length_append]
  omega

section Reports

variable {Reports : Nat → S → E → Prop} (outcome : p.Outcome first events e)
  (hstart : ∀ event ∈ p.reported first, Reports 0 first event)
  (hstep : ∀ i s t event, p.iteration.advance i s = .ok (some (t, event)) → Reports i t event)

include outcome hstart hstep

theorem map_number {number : R → Nat}
    (hnumber : ∀ i s event, Reports i s event → number (p.iteration.record event) = i) :
    (p.reported first ++ events).map (number ∘ p.iteration.record) =
      List.range' p.firstNumber (p.reported first ++ events).length := by
  have hevents : events.map (number ∘ p.iteration.record) = List.range' 1 events.length :=
    outcome.chain.map_number fun i s t event hadvance =>
      hnumber i t event (hstep i s t event hadvance)
  rw [reported] at hstart ⊢
  rw [firstNumber]
  cases hreport : p.startEvent with
  | none => simpa using hevents
  | some report =>
      have hzero := hnumber 0 first (report first) (hstart _ (by simp [hreport]))
      simp [List.range'_succ, hevents, hzero]

theorem tally {number : R → Nat}
    (hnumber : ∀ i s event, Reports i s event → number (p.iteration.record event) = i) :
    Tally number p.firstNumber p.budget e.iterations e.status e.history := by
  have hlength := outcome.length_add_firstNumber
  have hnumbers := outcome.map_number hstart hstep hnumber
  obtain ⟨hkept, hdropped⟩ := History.toList_foldl_push_empty p.limit
    ((p.reported first ++ events).map p.iteration.record)
  rw [← outcome.history] at hkept hdropped
  rw [List.length_map] at hdropped
  have hsize : e.history.size =
      (p.reported first ++ events).length - e.history.dropped := by
    rw [← History.length_toList, hkept, List.length_drop, List.length_map]
  refine ⟨?_, ?_, ?_, ?_⟩
  · exact outcome.iterations ▸ outcome.withinBudget
  · intro hstatus
    rw [outcome.iterations, outcome.exhausted hstatus]
  · omega
  · rw [hkept, List.map_drop, List.map_map, hnumbers, List.drop_range', hsize, Nat.mul_one,
      Nat.add_comm]

theorem exists_report_of_last {r : R} (h : e.history.last? = some r) :
    ∃ event, Reports e.iterations e.state event ∧ p.iteration.record event = r := by
  rw [← History.getLast?_toList, outcome.history,
    (History.toList_foldl_push_empty p.limit _).1, List.getLast?_drop] at h
  split at h
  · cases h
  · rcases outcome.start_or_last with ⟨rfl, hstate⟩ | ⟨before, event, s, rfl, hadvance⟩
    · rw [List.append_nil] at h
      obtain ⟨event, hevent, rfl⟩ := List.mem_map.mp (List.mem_of_getLast? h)
      refine ⟨event, ?_, rfl⟩
      rw [outcome.iterations, hstate]
      exact hstart event hevent
    · simp only [← List.append_assoc, List.map_append, List.map_cons, List.map_nil,
        List.getLast?_concat, Option.some.injEq] at h
      exact ⟨event, hstep _ _ _ _ hadvance, h⟩

end Reports

theorem events_ne_nil (outcome : p.Outcome first events e) (allowed : 0 < p.budget)
    (unreported : p.reported first = []) (visible : p.iteration.convergenceFirst = true)
    (running : p.iteration.converged first = false)
    (proceeds : p.iteration.advance 1 first ≠ .ok none) : events ≠ [] := by
  rintro rfl
  have hstate : e.state = first := by
    rcases outcome.start_or_last with ⟨-, hstate⟩ | ⟨before, event, s, hevents, -⟩
    · exact hstate
    · simp at hevents
  cases hstatus : e.status with
  | converged =>
      have hconverged := (outcome.converged (.inl visible)).mp hstatus
      rw [hstate, running] at hconverged
      cases hconverged
  | exhausted => exact absurd (outcome.exhausted hstatus) (Nat.ne_of_lt allowed)
  | gaveUp =>
      have hgaveUp := outcome.gaveUp hstatus
      rw [outcome.iterations, hstate] at hgaveUp
      exact proceeds hgaveUp
  | stopped => exact outcome.stopped hstatus (by rw [unreported, List.append_nil])

end Outcome

end Procedure

variable {K : Type} [Scalar K] {n : Nat} {ε σ : Type}

namespace QuasiNewton

/-- The result gives a true account of its run. -/
structure Solution.Accounts (c : Config K) (sol : Solution K n) : Prop extends
    Tally Record.iteration 0 c.maxIters sol.iterations sol.status sol.history where
  converged : sol.status ≠ .stopped →
    (sol.status = .converged ↔ sol.final.gradientNorm < c.gradientTol)
  last : ∀ r, sol.history.last? = some r → r.x = sol.final.x ∧ r.objective = sol.final.value

theorem accounts_of_minimize {f : Objective K n ε} {x : Vector K n} {c : Config K}
    {o : Observer σ (Event K n)} {w : σ} {sol : Solution K n}
    (h : (minimize f x c o w).1 = .ok sol) : sol.Accounts c := by
  obtain ⟨first, events, e, -, outcome, rfl⟩ :=
    Procedure.exists_outcome_of_run (procedure_run f x c) h
  let Reports (i : Nat) (s : State K n) (event : Event K n) : Prop :=
    ∃ alpha stale, event = s.event i alpha stale
  have hstart : ∀ event ∈ (procedure f x c).reported first, Reports 0 first event := by
    intro event hevent
    exact ⟨_, _, List.mem_singleton.mp hevent⟩
  have hstep (i : Nat) (s t : State K n) (event : Event K n)
      (hadvance : (procedure f x c).iteration.advance i s = .ok (some (t, event))) :
      Reports i t event :=
    State.exists_event_of_advance (Except.mapError_eq_ok_iff.mp hadvance)
  refine { outcome.tally hstart hstep ?_ with converged := ?_, last := ?_ }
  · rintro i s event ⟨alpha, stale, rfl⟩
    rfl
  · intro visible
    exact (outcome.converged (.inr visible)).trans decide_eq_true_iff
  · intro r hr
    obtain ⟨event, ⟨alpha, stale, rfl⟩, rfl⟩ := outcome.exists_report_of_last hstart hstep hr
    exact ⟨rfl, rfl⟩

end QuasiNewton

namespace TrustRegion

structure Solution.Accounts (c : Config K) (sol : Solution K n) : Prop extends
    Tally Record.iteration 0 c.maxIters sol.iterations sol.status sol.history where
  converged : sol.status ≠ .stopped →
    (sol.status = .converged ↔ sol.final.gradientNorm < c.gradientTol)
  gaveUp : sol.status = .gaveUp → sol.radius < c.minRadius
  last : ∀ r, sol.history.last? = some r → r.x = sol.final.x ∧ r.objective = sol.final.value

theorem accounts_of_minimize {f : Objective K n ε} {x : Vector K n} {c : Config K}
    {o : Observer σ (Event K n)} {w : σ} {sol : Solution K n}
    (h : (minimize f x c o w).1 = .ok sol) : sol.Accounts c := by
  obtain ⟨first, events, e, -, outcome, rfl⟩ :=
    Procedure.exists_outcome_of_run (procedure_run f x c) h
  let Reports (i : Nat) (s : State K n) (event : Event K n) : Prop := event.ReportsOn i s
  have hstart : ∀ event ∈ (procedure f x c).reported first, Reports 0 first event := by
    intro event hevent
    cases List.mem_singleton.mp hevent
    exact first.startEvent_reportsOn
  have hstep (i : Nat) (s t : State K n) (event : Event K n)
      (hadvance : (procedure f x c).iteration.advance i s = .ok (some (t, event))) :
      Reports i t event := by
    obtain ⟨outcome, stale, -, rfl, -⟩ :=
      State.advances_of_advance (Except.mapError_eq_ok_iff.mp hadvance)
    exact t.event_reportsOn i outcome _ stale
  refine { outcome.tally hstart hstep ?_ with converged := ?_, gaveUp := ?_, last := ?_ }
  · intro i s event reports
    exact reports.iteration
  · intro visible
    exact (outcome.converged (.inr visible)).trans decide_eq_true_iff
  · intro hstatus
    exact State.advance_eq_none_iff.mp (Except.mapError_eq_ok_iff.mp (outcome.gaveUp hstatus))
  · intro r hr
    obtain ⟨event, reports, rfl⟩ := outcome.exists_report_of_last hstart hstep hr
    exact ⟨reports.x, reports.objective⟩

end TrustRegion

namespace Broyden

structure Solution.Accounts (c : Config K) (sol : Solution K n) : Prop extends
    Tally Record.iteration 0 c.maxIters sol.iterations sol.status sol.history where
  converged : sol.status ≠ .stopped →
    (sol.status = .converged ↔ sol.final.residualNorm < c.residualTol)
  last : ∀ r, sol.history.last? = some r →
    r.x = sol.final.x ∧ r.residualNorm = sol.final.residualNorm

theorem accounts_of_solve {f : System K n ε} {x : Vector K n} {c : Config K}
    {o : Observer σ (Event K n)} {w : σ} {sol : Solution K n}
    (h : (solve f x c o w).1 = .ok sol) : sol.Accounts c := by
  obtain ⟨first, events, e, -, outcome, rfl⟩ :=
    Procedure.exists_outcome_of_run (procedure_run f x c) h
  let Reports (i : Nat) (s : State K n) (event : Event K n) : Prop :=
    ∃ alpha refreshed, event = s.event i alpha refreshed
  have hstart : ∀ event ∈ (procedure f x c).reported first, Reports 0 first event := by
    intro event hevent
    exact ⟨_, _, List.mem_singleton.mp hevent⟩
  have hstep (i : Nat) (s t : State K n) (event : Event K n)
      (hadvance : (procedure f x c).iteration.advance i s = .ok (some (t, event))) :
      Reports i t event := by
    obtain ⟨a, -, -, hevent⟩ :=
      State.exists_accepted_of_advance (Except.mapError_eq_ok_iff.mp hadvance)
    exact ⟨a.alpha, a.refreshed, hevent⟩
  refine { outcome.tally hstart hstep ?_ with converged := ?_, last := ?_ }
  · rintro i s event ⟨alpha, refreshed, rfl⟩
    rfl
  · intro visible
    exact (outcome.converged (.inr visible)).trans decide_eq_true_iff
  · intro r hr
    obtain ⟨event, ⟨alpha, refreshed, rfl⟩, rfl⟩ :=
      outcome.exists_report_of_last hstart hstep hr
    exact ⟨rfl, rfl⟩

end Broyden

namespace Constrained

/-- The result gives a true account of its run, whose first record is that of the first iteration.
Convergence takes precedence over a request to stop. -/
structure Solution.Accounts (tolerance : K) (budget : Nat) (sol : Solution K n) : Prop extends
    Tally Record.iteration 1 budget sol.last.iteration sol.status sol.history where
  converged : sol.status = .converged ↔ sol.last.measure.value < tolerance
  last : ∀ r, sol.history.last? = some r → r = sol.last

/-- The procedure keeps the record of its last iteration in its state. -/
structure Keeps {S A : Type} (p : Procedure S (Record K n) (Record K n) (Error K ε) A)
    (last : S → Record K n) : Prop where
  unreported : p.startEvent = none
  record : p.iteration.record = id
  start : ∀ s, p.start = .ok s → (last s).iteration = 0
  advance : ∀ i s t event, p.iteration.advance i s = .ok (some (t, event)) →
    event = last t ∧ (last t).iteration = i

section Keeps

variable {S A : Type} {p : Procedure S (Record K n) (Record K n) (Error K ε) A}
variable {last : S → Record K n} {first : S} {events : List (Record K n)}
variable {e : Ending S (Record K n)}

omit [Scalar K]

theorem Keeps.iteration (keeps : Keeps p last) (hfirst : p.start = .ok first)
    (outcome : p.Outcome first events e) : (last e.state).iteration = e.iterations := by
  rcases outcome.start_or_last with ⟨rfl, hstate⟩ | ⟨before, event, s, rfl, hadvance⟩
  · rw [hstate, keeps.start first hfirst, outcome.iterations]
    rfl
  · exact (keeps.advance _ _ _ _ hadvance).2

theorem Keeps.tally_and_last (keeps : Keeps p last) (hfirst : p.start = .ok first)
    (outcome : p.Outcome first events e) :
    Tally Record.iteration 1 p.budget (last e.state).iteration e.status e.history ∧
      ∀ r, e.history.last? = some r → r = last e.state := by
  let Reports (i : Nat) (s : S) (event : Record K n) : Prop :=
    event = last s ∧ (last s).iteration = i
  have hstart : ∀ event ∈ p.reported first, Reports 0 first event := by
    simp [Procedure.reported, keeps.unreported]
  have hnumber (i : Nat) (s : S) (event : Record K n) (reports : Reports i s event) :
      (p.iteration.record event).iteration = i := by
    rw [keeps.record, reports.1]
    exact reports.2
  have htally := outcome.tally hstart keeps.advance hnumber
  rw [Procedure.firstNumber, keeps.unreported] at htally
  rw [keeps.iteration hfirst outcome]
  refine ⟨htally, ?_⟩
  intro r hr
  obtain ⟨event, ⟨rfl, -⟩, rfl⟩ := outcome.exists_report_of_last hstart keeps.advance hr
  rw [keeps.record]
  rfl

end Keeps

theorem Reduction.keeps (r : Reduction K n ε) (f : Objective K n ε) (x : Vector K n)
    (check : Except (Error K ε) Unit) (maxOuterIters : Nat) (historyLimit : Option Nat) :
    Keeps (r.procedure f x check maxOuterIters historyLimit) State.last where
  unreported := rfl
  record := rfl
  start s hs := by
    obtain ⟨⟨⟩, -, hs⟩ := Except.bind_eq_ok_iff.mp hs
    obtain ⟨-, objective, -, -, rfl⟩ := start_eq_ok_iff.mp hs
    rfl
  advance i s t event hadvance := by
    obtain ⟨rfl, inner, advances⟩ := advance_eq_some_iff.mp hadvance
    exact ⟨rfl, advances.iteration⟩

theorem Reduction.accounts_of_run {r : Reduction K n ε} {f : Objective K n ε} {x : Vector K n}
    {check : Except (Error K ε) Unit} {maxOuterIters : Nat} {historyLimit : Option Nat}
    {solve : Solver (Record K n) (Error K ε) (Solution K n)}
    (hrun : (r.procedure f x check maxOuterIters historyLimit).run = solve)
    (allowed : 0 < maxOuterIters) {o : Observer σ (Record K n)} {w : σ} {sol : Solution K n}
    (h : (solve σ o w).1 = .ok sol) : sol.Accounts r.tolerance maxOuterIters := by
  obtain ⟨first, events, e, hfirst, outcome, rfl⟩ := Procedure.exists_outcome_of_run hrun h
  have keeps := r.keeps f x check maxOuterIters historyLimit
  obtain ⟨htally, hlast⟩ := keeps.tally_and_last hfirst outcome
  refine { htally with converged := ?_, last := hlast }
  obtain ⟨⟨⟩, -, hstart⟩ := Except.bind_eq_ok_iff.mp hfirst
  have hevents : events ≠ [] :=
    outcome.events_ne_nil allowed rfl rfl (converged_of_start hstart) advance_ne_none
  have hpositive : 0 < e.state.last.iteration := by
    rw [keeps.iteration hfirst outcome, outcome.iterations]
    exact List.length_pos_of_ne_nil hevents
  refine (outcome.converged (.inl rfl)).trans ?_
  simp [procedure, iteration, hpositive, solution]

section Methods

variable {f : Objective K n ε} {c : ConstraintSet K n} {x : Vector K n}
variable {o : Observer σ (Record K n)} {w : σ} {sol : Solution K n}

theorem Penalty.accounts_of_minimize {config : Config K}
    (h : (minimize f c x config o w).1 = .ok sol) :
    sol.Accounts config.tolerance config.maxOuterIters :=
  Reduction.accounts_of_run (procedure_run f c x config) (valid_of_minimize h).allowed h

theorem AugmentedLagrangian.accounts_of_minimize {config : Config K}
    (h : (minimize f c x config o w).1 = .ok sol) :
    sol.Accounts config.tolerance config.maxOuterIters :=
  Reduction.accounts_of_run (procedure_run f c x config) (valid_of_minimize h).allowed h

theorem Barrier.accounts_of_minimize {config : Config K}
    (h : (minimize f c x config o w).1 = .ok sol) :
    sol.Accounts config.tolerance config.maxOuterIters :=
  Reduction.accounts_of_run (procedure_run f c x config) (valid_of_minimize h).1.allowed h

theorem ProjectedGradient.keeps (f : Objective K n ε) (b : Box K n) (x : Vector K n)
    (config : Config K) : Keeps (procedure f b x config) State.last where
  unreported := rfl
  record := rfl
  start s hs := by
    obtain ⟨-, -, e, -, -, rfl⟩ := start_eq_ok_iff.mp hs
    rfl
  advance i s t event hadvance := by
    obtain ⟨alpha, next, -, rfl, rfl⟩ := exists_found_of_advance hadvance
    exact ⟨rfl, rfl⟩

theorem ProjectedGradient.accounts_of_minimize {b : Box K n} {config : Config K}
    (h : (minimize f b x config o w).1 = .ok sol) :
    sol.Accounts config.tolerance config.maxIters := by
  obtain ⟨first, events, e, hfirst, outcome, rfl⟩ :=
    Procedure.exists_outcome_of_run (procedure_run f b x config) h
  obtain ⟨htally, hlast⟩ := (keeps f b x config).tally_and_last hfirst outcome
  exact { htally with
    converged := (outcome.converged (.inl rfl)).trans decide_eq_true_iff
    last := hlast }

end Methods

end Constrained

/-- Every result of any of the methods gives a true account of its run. -/
theorem results_account_for_runs (f : Objective K n ε) (c : ConstraintSet K n) (b : Box K n)
    (system : Broyden.System K n ε) (x : Vector K n) (σ : Type) :
    (∀ config (o : Observer σ (QuasiNewton.Event K n)) w sol,
      (QuasiNewton.minimize f x config o w).1 = .ok sol → sol.Accounts config) ∧
    (∀ config (o : Observer σ (TrustRegion.Event K n)) w sol,
      (TrustRegion.minimize f x config o w).1 = .ok sol → sol.Accounts config) ∧
    (∀ config (o : Observer σ (Constrained.Record K n)) w sol,
      (Constrained.Penalty.minimize f c x config o w).1 = .ok sol →
        sol.Accounts config.tolerance config.maxOuterIters) ∧
    (∀ config (o : Observer σ (Constrained.Record K n)) w sol,
      (Constrained.Barrier.minimize f c x config o w).1 = .ok sol →
        sol.Accounts config.tolerance config.maxOuterIters) ∧
    (∀ config (o : Observer σ (Constrained.Record K n)) w sol,
      (Constrained.AugmentedLagrangian.minimize f c x config o w).1 = .ok sol →
        sol.Accounts config.tolerance config.maxOuterIters) ∧
    (∀ config (o : Observer σ (Constrained.Record K n)) w sol,
      (Constrained.ProjectedGradient.minimize f b x config o w).1 = .ok sol →
        sol.Accounts config.tolerance config.maxIters) ∧
    ∀ config (o : Observer σ (Broyden.Event K n)) w sol,
      (Broyden.solve system x config o w).1 = .ok sol → sol.Accounts config := by
  refine ⟨?_, ?_, ?_, ?_, ?_, ?_, ?_⟩ <;> intro config o w sol h
  · exact QuasiNewton.accounts_of_minimize h
  · exact TrustRegion.accounts_of_minimize h
  · exact Constrained.Penalty.accounts_of_minimize h
  · exact Constrained.Barrier.accounts_of_minimize h
  · exact Constrained.AugmentedLagrangian.accounts_of_minimize h
  · exact Constrained.ProjectedGradient.accounts_of_minimize h
  · exact Broyden.accounts_of_solve h

/-- Each method from 2, with one iteration. The barrier method has no inequality, whose logarithm
could not be evaluated here. -/
theorem results_account_for_square :
    (∃ sol, (QuasiNewton.minimize square #v[2.0] { maxIters := 1 }
      (.silent : Observer Unit _) ()).1 = .ok sol ∧ sol.Accounts { maxIters := 1 }) ∧
    (∃ sol, (TrustRegion.minimize square #v[2.0] { maxIters := 1 }
      (.silent : Observer Unit _) ()).1 = .ok sol ∧ sol.Accounts { maxIters := 1 }) ∧
    (∃ sol, (Constrained.Penalty.minimize square atMostThree #v[2.0] { maxOuterIters := 1 }
      (.silent : Observer Unit _) ()).1 = .ok sol ∧ sol.Accounts 1e-6 1) ∧
    (∃ sol, (Constrained.Barrier.minimize square {} #v[2.0] { maxOuterIters := 1 }
      (.silent : Observer Unit _) ()).1 = .ok sol ∧ sol.Accounts 1e-6 1) ∧
    (∃ sol, (Constrained.AugmentedLagrangian.minimize square atMostThree #v[2.0]
      { maxOuterIters := 1 } (.silent : Observer Unit _) ()).1 = .ok sol ∧
        sol.Accounts 1e-6 1) ∧
    (∃ sol, (Constrained.ProjectedGradient.minimize square atLeastOne #v[2.0] { maxIters := 1 }
      (.silent : Observer Unit _) ()).1 = .ok sol ∧ sol.Accounts 1e-6 1) ∧
    ∃ sol, (Broyden.solve square.gradient #v[2.0] { maxIters := 1 }
      (.silent : Observer Unit _) ()).1 = .ok sol ∧ sol.Accounts { maxIters := 1 } := by
  obtain ⟨quasiNewton, trustRegion, penalty, -, augmentedLagrangian, projectedGradient, broyden⟩ :=
    results_account_for_runs square atMostThree atLeastOne square.gradient #v[2.0] Unit
  obtain ⟨-, -, -, barrier, -⟩ :=
    results_account_for_runs square {} atLeastOne square.gradient #v[2.0] Unit
  refine ⟨?_, ?_, ?_, ?_, ?_, ?_, ?_⟩
  · refine (Except.exists_eq_ok_of_isOk ?_).imp fun sol h => ⟨h, quasiNewton _ _ _ sol h⟩
    decide +kernel
  · refine (Except.exists_eq_ok_of_isOk ?_).imp fun sol h => ⟨h, trustRegion _ _ _ sol h⟩
    decide +kernel
  · refine (Except.exists_eq_ok_of_isOk ?_).imp fun sol h => ⟨h, penalty _ _ _ sol h⟩
    decide +kernel
  · refine (Except.exists_eq_ok_of_isOk ?_).imp fun sol h => ⟨h, barrier _ _ _ sol h⟩
    decide +kernel
  · refine (Except.exists_eq_ok_of_isOk ?_).imp fun sol h => ⟨h, augmentedLagrangian _ _ _ sol h⟩
    decide +kernel
  · refine (Except.exists_eq_ok_of_isOk ?_).imp fun sol h => ⟨h, projectedGradient _ _ _ sol h⟩
    decide +kernel
  · refine (Except.exists_eq_ok_of_isOk ?_).imp fun sol h => ⟨h, broyden _ _ _ sol h⟩
    decide +kernel

end LocalOptimization
