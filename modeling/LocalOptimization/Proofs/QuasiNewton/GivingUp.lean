import LocalOptimization.Proofs.LineSearch.Least
import LocalOptimization.Proofs.QuasiNewton
import LocalOptimization.Proofs.Univariate

/-!
# Giving up

A run gives up where its line search hands back a step that neither satisfies it nor decreases the
objective. With the strong Wolfe search no trial of that search has decreased the objective. With
backtracking one may have, since only the last trial is handed back: the run then gives up although
it has evaluated a better point.
-/

namespace LocalOptimization.QuasiNewton

open LineSearch (Step)

variable {K : Type} [Scalar K] {n : Nat} {ε σ : Type}

/-- The run ends at `s`, and these are the trials of the line search from there, as many as the
search counts. It hands back a step that the run does not take. -/
structure LastSearch (f : Objective K n ε) (c : Config K) (x : Vector K n) (sol : Solution K n)
    (s : State K n) (trials : List (Step K n)) : Prop where
  reaches : ∃ events, Reaches f c x events s ∧ events.length = sol.iterations
  final : s.current = sol.final
  attempts : c.lineSearch.attempts f s.ray s.initialStep = .ok trials
  handedBack : ∃ step, c.lineSearch.search f s.ray s.initialStep = .ok step ∧
    step.evaluations = trials.length ∧ step.satisfied = false ∧
    step.decreases sol.final.value = false

variable {f : Objective K n ε} {c : Config K} {x : Vector K n} {o : Observer σ (Event K n)} {w : σ}

theorem exists_reaches_of_gaveUp {sol : Solution K n} (h : (minimize f x c o w).1 = .ok sol)
    (gaveUp : sol.status = .gaveUp) :
    ∃ events s, Reaches f c x events s ∧ events.length = sol.iterations ∧
      s.current = sol.final ∧ s.advance f c (sol.iterations + 1) = .ok none := by
  rw [minimize] at h
  cases hstart : start f c x with
  | error e => simp [hstart] at h
  | ok first =>
      rw [hstart] at h
      obtain ⟨ending, hending, rfl⟩ := Except.map_eq_ok_iff.mp h
      cases hobserve : (o.observe w (first.event 0 0.0 false)).1 with
      | true =>
          rw [Iteration.runFrom_of_stop hobserve] at hending
          cases hending
          simp only [solution, Iteration.statusAtStop] at gaveUp
          split at gaveUp <;> cases gaveUp
      | false =>
          rw [Iteration.runFrom_of_pass hobserve] at hending
          obtain ⟨events, outcome, -⟩ := Iteration.exists_outcome (Prod.ext hending rfl)
          have hcount : ending.iterations = events.length := by simpa using outcome.iterations
          have hadvance := Except.mapError_eq_ok_iff.mp (outcome.gaveUp gaveUp)
          exact ⟨events, ending.state, ⟨first, hstart, outcome.chain⟩, hcount.symm, rfl, hadvance⟩

theorem exists_lastSearch_of_gaveUp {sol : Solution K n} (h : (minimize f x c o w).1 = .ok sol)
    (gaveUp : sol.status = .gaveUp) : ∃ s trials, LastSearch f c x sol s trials := by
  obtain ⟨events, s, reaches, hcount, hfinal, hadvance⟩ := exists_reaches_of_gaveUp h gaveUp
  obtain ⟨step, hsearch, hunsatisfied, hrejected⟩ := State.advance_eq_none_iff.mp hadvance
  rw [hfinal] at hrejected
  have hselect := hsearch
  rw [LineSearch.search_eq_map_attempts] at hselect
  obtain ⟨trials, htrials, rfl⟩ := Except.map_eq_ok_iff.mp hselect
  exact ⟨s, trials, ⟨events, reaches, hcount⟩, hfinal, htrials, _, hsearch,
    LineSearch.evaluations_select htrials, hunsatisfied, hrejected⟩

namespace LastSearch

variable {sol : Solution K n} {s : State K n} {trials : List (Step K n)}

theorem select_rejected (last : LastSearch f c x sol s trials) :
    (c.lineSearch.select s.initialStep trials).satisfied = false ∧
      (c.lineSearch.select s.initialStep trials).decreases sol.final.value = false := by
  obtain ⟨step, hsearch, -, hunsatisfied, hrejected⟩ := last.handedBack
  rw [LineSearch.search_eq_map_attempts, last.attempts] at hsearch
  cases hsearch
  exact ⟨hunsatisfied, hrejected⟩

/-- Only a trial of backtracking before the last one may have decreased the objective. -/
theorem not_decreases_iff [OrderedScalar K] (last : LastSearch f c x sol s trials) :
    (∀ t ∈ trials, t.decreases sol.final.value = false) ↔
      ∀ b, c.lineSearch = .backtracking b →
        ∀ t ∈ trials.dropLast, t.decreases sol.final.value = false := by
  have htrials := last.attempts
  obtain ⟨hunsatisfied, hrejected⟩ := last.select_rejected
  constructor
  · intro hall b _ t ht
    exact hall t (List.mem_of_mem_dropLast ht)
  · intro hbefore t ht
    cases hl : c.lineSearch with
    | strongWolfe b =>
        rw [hl] at htrials hunsatisfied hrejected
        exact LineSearch.not_decreases_of_select htrials hunsatisfied hrejected t ht
    | backtracking b =>
        rw [hl] at hrejected
        rcases LineSearch.mem_dropLast_or_eq_select b s.initialStep ht with hdropLast | hlast
        · exact hbefore b hl t hdropLast
        · rwa [hlast]

theorem not_accepts (last : LastSearch f c x sol s trials) {b : LineSearch.Backtracking K}
    (hl : c.lineSearch = .backtracking b) :
    ∀ t ∈ trials, t.finite = true → b.accepts s.ray t.alpha t.value = false := by
  have htrials := last.attempts
  have hunsatisfied := last.select_rejected.1
  rw [hl] at htrials hunsatisfied
  exact LineSearch.not_accepts_of_unsatisfied htrials hunsatisfied

end LastSearch

/-- A run that gives up has evaluated no decrease in its last search, except that backtracking may
have left one behind that was not sufficient. -/
theorem trials_of_gaveUp [OrderedScalar K] {sol : Solution K n}
    (h : (minimize f x c o w).1 = .ok sol) (gaveUp : sol.status = .gaveUp) :
    ∃ s trials, LastSearch f c x sol s trials ∧
      (∀ t ∈ trials, t.Tried f s.ray) ∧
      ((∀ t ∈ trials, t.decreases sol.final.value = false) ↔
        ∀ b, c.lineSearch = .backtracking b →
          ∀ t ∈ trials.dropLast, t.decreases sol.final.value = false) ∧
      ∀ b, c.lineSearch = .backtracking b →
        ∀ t ∈ trials, t.finite = true → b.accepts s.ray t.alpha t.value = false := by
  obtain ⟨s, trials, last⟩ := exists_lastSearch_of_gaveUp h gaveUp
  exact ⟨s, trials, last, LineSearch.tried_of_mem_attempts last.attempts, last.not_decreases_iff,
    fun _ hl => last.not_accepts hl⟩

section Example

/-- A cubic with a minimum, and a little below 0 at 1. -/
def dip : Objective Float 1 Empty :=
  .univariate (fun t => -4.00001 * (t * (t * t)) + (5.0 * (t * t) - t))
    (fun t => -12.00003 * (t * t) + (10.0 * t - 1.0))

/-- Two trials and one iteration. -/
def twoTrials : Config Float :=
  { lineSearch := .backtracking { maxIters := 2 }, maxIters := 1 }

theorem exists_minimize_dip :
    ∃ sol, minimizeUnobserved dip #v[0.0] twoTrials = .ok sol ∧ sol.status = .gaveUp ∧
      sol.iterations = 0 := by
  have hrun : (minimizeUnobserved dip #v[0.0] twoTrials).toOption.map
      (fun sol => (sol.status, sol.iterations)) = some (.gaveUp, 0) := by decide +kernel
  obtain ⟨sol, h, hsol⟩ := Except.toOption_map_eq_some_iff.mp hrun
  rw [Prod.mk.injEq] at hsol
  exact ⟨sol, h, hsol.1, hsol.2⟩

theorem trials_of_dip :
    ∃ sol s trials, minimizeUnobserved dip #v[0.0] twoTrials = .ok sol ∧ sol.status = .gaveUp ∧
      LastSearch dip twoTrials #v[0.0] sol s trials ∧
      (∀ t ∈ trials, t.Tried dip s.ray) ∧
      ((∀ t ∈ trials, t.decreases sol.final.value = false) ↔
        ∀ b, twoTrials.lineSearch = .backtracking b →
          ∀ t ∈ trials.dropLast, t.decreases sol.final.value = false) ∧
      ∀ b, twoTrials.lineSearch = .backtracking b →
        ∀ t ∈ trials, t.finite = true → b.accepts s.ray t.alpha t.value = false := by
  obtain ⟨sol, h, gaveUp, -⟩ := exists_minimize_dip
  obtain ⟨s, trials, hall⟩ := trials_of_gaveUp (o := .silent) (w := ()) h gaveUp
  exact ⟨sol, s, trials, h, gaveUp, hall⟩

/-- The first trial, a step to 1, lowers the value from 0, but not sufficiently. The second one is
higher, and the run gives up at 0. -/
theorem gaveUp_after_decrease :
    ∃ sol s trials, minimizeUnobserved dip #v[0.0] twoTrials = .ok sol ∧ sol.status = .gaveUp ∧
      LastSearch dip twoTrials #v[0.0] sol s trials ∧
      ∃ t ∈ trials, t.Tried dip s.ray ∧ t.decreases sol.final.value = true := by
  obtain ⟨sol, h, gaveUp, hiterations⟩ := exists_minimize_dip
  obtain ⟨s, trials, last⟩ := exists_lastSearch_of_gaveUp (o := .silent) (w := ()) h gaveUp
  obtain ⟨events, ⟨first, hstart, chain⟩, hcount⟩ := last.reaches
  obtain rfl := List.eq_nil_of_length_eq_zero (hcount.trans hiterations)
  cases chain
  have hfirst : ((start dip twoTrials #v[0.0]).toOption.bind fun s =>
      (twoTrials.lineSearch.attempts dip s.ray s.initialStep).toOption.map fun trials =>
        trials.any fun t => t.decreases s.current.value) = some true := by decide +kernel
  rw [hstart] at hfirst
  obtain ⟨trials', htrials, hany⟩ := Except.toOption_map_eq_some_iff.mp hfirst
  obtain rfl := Except.ok.inj (htrials.symm.trans last.attempts)
  obtain ⟨t, ht, hdecreases⟩ := List.any_eq_true.mp hany
  rw [last.final] at hdecreases
  exact ⟨sol, s, trials', h, gaveUp, last, t, ht,
    LineSearch.tried_of_mem_attempts last.attempts t ht, hdecreases⟩

end Example

end LocalOptimization.QuasiNewton
