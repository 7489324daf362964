import Mathlib
import LocalOptimization.Proofs.Constrained.Lagrangian
import LocalOptimization.Proofs.Procedure.Log
import LocalOptimization.Proofs.Procedure.Methods

/-!
# Replaying the augmented Lagrangian method

The records of a run determine its multipliers: with the parameter and the iterate of a record,
those of the records before it become the next ones. So a record follows from the records before it,
by an inner run on the surrogate with their multipliers.
-/

namespace LocalOptimization.Constrained.AugmentedLagrangian

section Replay

variable {K : Type} {n : Nat} {ε σ : Type}

/-- The iterate that the records lead to from `x`. -/
def lastIterate (x : Vector K n) (records : List (Record K n)) : Vector K n :=
  records.getLast?.elim x Record.x

theorem lastIterate_concat (x : Vector K n) (records : List (Record K n)) (r : Record K n) :
    lastIterate x (records ++ [r]) = r.x := by
  rw [lastIterate, List.getLast?_concat]
  rfl

variable [Scalar K]

/-- The multipliers that the records lead to from zero, in the order of the constraints. -/
def replay (c : ConstraintSet K n) (records : List (Record K n)) : Multipliers K where
  equality := c.equalities.map fun h =>
    records.foldl (fun lambda r => lambda + r.parameter * h.value r.x) 0.0
  inequality := c.inequalities.map fun g =>
    records.foldl (fun mu r => Scalar.max (mu + r.parameter * g.value r.x) 0.0) 0.0

/-- The parameter of the iteration after the records. -/
def Config.nextRho (config : Config K) (records : List (Record K n)) : K :=
  records.getLast?.elim config.initialRho fun r =>
    Scalar.min (r.parameter * config.growth) config.maxRho

/-- The iteration with the record `r` follows from the records before it: it has the parameter that
comes next, and its inner run starts from the last iterate, on the surrogate with the multipliers
that the records lead to. -/
structure Replays (f : Objective K n ε) (c : ConstraintSet K n) (x : Vector K n) (config : Config K)
    (records : List (Record K n)) (r : Record K n) : Prop where
  iteration : r.iteration = records.length + 1
  parameter : r.parameter = config.nextRho records
  inner : ∃ inner, QuasiNewton.minimizeUnobserved (surrogate f c r.parameter (replay c records))
    (lastIterate x records) config.inner = .ok inner ∧ r.x = inner.final.x ∧
      r.innerIterations = inner.iterations ∧ r.innerStatus = some inner.status
  objective : f.value r.x = .ok r.objective
  measure : r.measure = .violation (c.maxViolation r.x)

variable {f : Objective K n ε} {c : ConstraintSet K n} {x : Vector K n} {config : Config K}
variable {records : List (Record K n)}

theorem Config.nextRho_concat (r : Record K n) :
    config.nextRho (records ++ [r]) = Scalar.min (r.parameter * config.growth) config.maxRho := by
  rw [nextRho, List.getLast?_concat]
  rfl

theorem replay_concat (r : Record K n) :
    replay c (records ++ [r]) = updateMultipliers c r.parameter r.x (replay c records) := by
  simp only [replay, updateMultipliers, List.foldl_concat, List.zipWith_map_right,
    List.zipWith_self]
  rfl

/-- The records lead to the state after `i` outer iterations. -/
structure LeadTo (f : Objective K n ε) (c : ConstraintSet K n) (x : Vector K n) (config : Config K)
    (i : Nat) (records : List (Record K n)) (s : Reduction.State K n) : Prop where
  length : records.length = i
  parameter : s.parameter = config.nextRho records
  multipliers : s.multipliers = replay c records
  iterate : s.last.x = lastIterate x records
  replays : EachFollows (Replays f c x config) records

theorem leadTo_of_start {s : Reduction.State K n}
    (h : (reduction f c config).start f x = .ok s) : LeadTo f c x config 0 [] s := by
  obtain ⟨-, objective, -, -, rfl⟩ := Reduction.start_eq_ok_iff.mp h
  exact ⟨rfl, rfl, rfl, rfl, eachFollows_nil⟩

theorem LeadTo.replays_of_advances {i : Nat} {s t : Reduction.State K n}
    {inner : QuasiNewton.Solution K n} (leadTo : LeadTo f c x config i records s)
    (advances : (reduction f c config).Advances f (i + 1) s t inner) :
    Replays f c x config records t.last := by
  have hminimized := advances.minimized
  rw [leadTo.iterate, ← advances.usedParameter, leadTo.multipliers] at hminimized
  exact {
    iteration := by rw [advances.iteration, leadTo.length]
    parameter := advances.usedParameter.trans leadTo.parameter
    inner := ⟨inner, hminimized, advances.x, advances.innerIterations, advances.innerStatus⟩
    objective := advances.objective
    measure := advances.measure }

theorem LeadTo.concat {i : Nat} {s t : Reduction.State K n} {inner : QuasiNewton.Solution K n}
    (leadTo : LeadTo f c x config i records s)
    (advances : (reduction f c config).Advances f (i + 1) s t inner) :
    LeadTo f c x config (i + 1) (records ++ [t.last]) t where
  length := by rw [List.length_append, leadTo.length, List.length_singleton]
  parameter := by
    rw [advances.parameter, Config.nextRho_concat, advances.usedParameter]
    rfl
  multipliers := by
    rw [advances.multipliers, replay_concat, advances.usedParameter, leadTo.multipliers]
    rfl
  iterate := (lastIterate_concat x records t.last).symm
  replays := eachFollows_concat_iff.mpr ⟨leadTo.replays, leadTo.replays_of_advances advances⟩

theorem replays_of_minimize {o : Observer σ (Record K n)} {w : σ} {sol : Solution K n}
    (h : (minimize f c x config o w).1 = .ok sol) (unlimited : config.historyLimit = none) :
    sol.multipliers = replay c sol.history.toList ∧
      EachFollows (Replays f c x config) sol.history.toList := by
  have hstart : ∀ s, (procedure f c x config).start = .ok s →
      ∃ log, log.map id = (procedure f c x config).reported s ∧ LeadTo f c x config 0 log s := by
    intro s hs
    obtain ⟨-, -, hs⟩ := Except.bind_eq_ok_iff.mp hs
    exact ⟨[], rfl, leadTo_of_start hs⟩
  have hstep : ∀ i log s t r, LeadTo f c x config i log s →
      (procedure f c x config).iteration.advance (i + 1) s = .ok (some (t, r)) →
        ∃ l, id l = r ∧ LeadTo f c x config (i + 1) (log ++ [l]) t := by
    intro i log s t r leadTo hadvance
    obtain ⟨rfl, inner, advances⟩ := Reduction.advance_eq_some_iff.mp hadvance
    exact ⟨t.last, rfl, leadTo.concat advances⟩
  obtain ⟨records, e, hhistory, leadTo, rfl⟩ :=
    Procedure.exists_log id (procedure_run f c x config) unlimited hstart hstep h
  have hrecords : ((procedure f c x config).solution e).history.toList = records :=
    hhistory.trans (List.map_id records)
  rw [hrecords]
  exact ⟨leadTo.multipliers, leadTo.replays⟩

end Replay

section Exact

variable {n : Nat} {ε σ : Type} {f : Objective ℝ n ε} {c : ConstraintSet ℝ n} {x : Vector ℝ n}
variable {config : Config ℝ} {records : List (Record ℝ n)}

theorem equality_replay : (replay c records).equality =
    c.equalities.map fun h => (records.map fun r => r.parameter * h.value r.x).sum := by
  rw [replay]
  apply List.map_congr_left
  intro h _
  rw [List.sum_eq_foldl, List.foldl_map, Exact.zero_eq]

theorem inequality_replay_nonneg : ∀ mu ∈ (replay c records).inequality, 0 ≤ mu := by
  intro mu hmu
  obtain ⟨g, -, rfl⟩ := List.mem_map.mp hmu
  rcases List.eq_nil_or_concat' records with rfl | ⟨earlier, r, rfl⟩
  · exact Exact.zero_eq.ge
  · rw [List.foldl_concat]
    exact shiftedInequality_nonneg _ _ _

/-- The parameters on record do not decrease, and the next one goes on in this way. -/
structure Rises (config : Config ℝ) (records : List (Record ℝ n)) : Prop where
  next_pos : 0 < config.nextRho records
  next_le : config.nextRho records ≤ config.maxRho
  le_next : ∀ r ∈ records, r.parameter ≤ config.nextRho records
  pairwise : records.Pairwise fun before after => before.parameter ≤ after.parameter

theorem rises_nil (valid : config.Valid) : Rises config ([] : List (Record ℝ n)) where
  next_pos := valid.initial_pos
  next_le := (valid.greatestAboveInitial _ rfl).2
  le_next := by simp
  pairwise := .nil

theorem Rises.concat (valid : config.Valid) (rises : Rises config records) {r : Record ℝ n}
    (hr : r.parameter = config.nextRho records) : Rises config (records ++ [r]) := by
  have hpos : 0 < r.parameter := hr ▸ rises.next_pos
  have hnext : r.parameter ≤ config.nextRho (records ++ [r]) := by
    rw [Config.nextRho_concat, Exact.min_eq]
    exact le_min (le_mul_of_one_le_right hpos.le valid.one_lt_growth.le) (hr ▸ rises.next_le)
  refine ⟨?_, ?_, ?_, ?_⟩
  · exact hpos.trans_le hnext
  · rw [Config.nextRho_concat, Exact.min_eq]
    exact min_le_right _ _
  · intro q hq
    rcases List.mem_append.mp hq with hq | hq
    · exact ((rises.le_next q hq).trans_eq hr.symm).trans hnext
    · rw [List.mem_singleton.mp hq]
      exact hnext
  · refine List.pairwise_append.mpr ⟨rises.pairwise, List.pairwise_singleton _ _, ?_⟩
    intro q hq r' hr'
    rw [List.mem_singleton.mp hr', hr]
    exact rises.le_next q hq

theorem rises_of_eachFollows (valid : config.Valid)
    (replays : EachFollows (Replays f c x config) records) : Rises config records := by
  induction records using List.reverseRecOn with
  | nil => exact rises_nil valid
  | append_singleton records r ih =>
      obtain ⟨hearlier, hlast⟩ := eachFollows_concat_iff.mp replays
      exact (ih hearlier).concat valid hlast.parameter

end Exact

/-- Without a limit on its history, a run can be replayed from its records: each iteration follows
from the records before it, and the multipliers of the result are those that all records lead to. In
exact arithmetic the multiplier of an equality is the weighted sum of its values, the parameters
rise up to their cap, and no multiplier of an inequality is negative. -/
theorem history_replays :
    (∀ {K : Type} [Scalar K] {n : Nat} {ε σ : Type} (f : Objective K n ε) (c : ConstraintSet K n)
      (x : Vector K n) (config : Config K) (o : Observer σ (Record K n)) (w : σ)
      (sol : Solution K n), (minimize f c x config o w).1 = .ok sol → config.historyLimit = none →
        sol.multipliers = replay c sol.history.toList ∧
          ∀ before r later, sol.history.toList = before ++ r :: later →
            Replays f c x config before r) ∧
    (∀ {n : Nat} {ε σ : Type} (f : Objective ℝ n ε) (c : ConstraintSet ℝ n) (x : Vector ℝ n)
      (config : Config ℝ) (o : Observer σ (Record ℝ n)) (w : σ) (sol : Solution ℝ n),
      (minimize f c x config o w).1 = .ok sol → config.historyLimit = none →
        sol.multipliers.equality = (c.equalities.map fun h =>
          (sol.history.toList.map fun r => r.parameter * h.value r.x).sum) ∧
        (sol.history.toList.Pairwise fun before after => before.parameter ≤ after.parameter) ∧
        (∀ r ∈ sol.history.toList, r.parameter ≤ config.maxRho) ∧
        ∀ mu ∈ sol.multipliers.inequality, 0 ≤ mu) := by
  refine ⟨?_, ?_⟩
  · intro K _ n ε σ f c x config o w sol h unlimited
    exact replays_of_minimize h unlimited
  · intro n ε σ f c x config o w sol h unlimited
    obtain ⟨hmultipliers, replays⟩ := replays_of_minimize h unlimited
    have rises := rises_of_eachFollows (valid_of_minimize h) replays
    rw [hmultipliers]
    exact ⟨equality_replay, rises.pairwise, fun r hr => (rises.le_next r hr).trans rises.next_le,
      inequality_replay_nonneg⟩

/-- The constraints `x = 1` and `x ≤ 3/4`, which cannot both hold. -/
def torn : ConstraintSet Float 1 where
  equalities := [.univariate (· - 1.0) (fun _ => 1.0)]
  inequalities := [.univariate (· - 0.75) (fun _ => 1.0)]

theorem history_replays_torn :
    (∃ sol, (minimize square torn #v[2.0] { maxOuterIters := 2, inner := { maxIters := 1 } }
        (.silent : Observer Unit _) ()).1 = .ok sol ∧
      sol.history.toList.map Record.parameter = [1.0, 10.0] ∧
      sol.multipliers.equality = [-2.5] ∧ sol.multipliers.inequality = [0.25] ∧
      sol.multipliers = replay torn sol.history.toList) ∧
    ∃ sol, (minimize line atOrigin #v[1] { tolerance := 2 } (.silent : Observer Unit _) ()).1 =
        .ok sol ∧
      sol.multipliers.equality =
        [(sol.history.toList.map fun r => r.parameter * r.x.get (Fin.last 0)).sum] := by
  constructor
  · have hrun : (minimize square torn #v[2.0] { maxOuterIters := 2, inner := { maxIters := 1 } }
        (.silent : Observer Unit _) ()).1.toOption.map (fun sol =>
          (sol.history.toList.map Record.parameter, sol.multipliers.equality,
            sol.multipliers.inequality)) = some ([1.0, 10.0], [-2.5], [0.25]) := by decide +kernel
    obtain ⟨sol, h, hsol⟩ := Except.toOption_map_eq_some_iff.mp hrun
    rw [Prod.mk.injEq, Prod.mk.injEq] at hsol
    exact ⟨sol, h, hsol.1, hsol.2.1, hsol.2.2, (history_replays.1 _ _ _ _ _ _ sol h rfl).1⟩
  · obtain ⟨sol, h, -⟩ := exists_minimize_augmentedLagrangian
    exact ⟨sol, h, (history_replays.2 _ _ _ _ _ _ sol h rfl).1⟩

end LocalOptimization.Constrained.AugmentedLagrangian
