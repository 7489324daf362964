import Mathlib
import LocalOptimization.Proofs.QuasiNewton.Replay
import LocalOptimization.Proofs.TrustRegion.Replay
import LocalOptimization.Proofs.Univariate

/-!
# Replaying runs of doubles

What the state of a run keeps between its iterations, it could as well compute from what it has
recorded.
-/

namespace LocalOptimization

/-- Without a limit on their histories, runs of line-search descent and of trust regions can be
replayed from their records: directions, first step lengths, Hessians and skipped pairs are those of
models that learn the pairs of the log from the start. -/
theorem history_replays_runs {n : Nat} {ε σ : Type} (f : Objective Float n ε) (x : Vector Float n) :
    (∀ (c : QuasiNewton.Config Float) (o : Observer σ (QuasiNewton.Event Float n)) w sol,
      (QuasiNewton.minimize f x c o w).1 = .ok sol → c.historyLimit = none →
        ∃ log, sol.history.toList = log.map QuasiNewton.Event.record ∧
          Replayable (QuasiNewton.Starts f x) (QuasiNewton.Replays f c) log) ∧
    (∀ (c : TrustRegion.Config Float) (o : Observer σ (TrustRegion.Event Float n)) w sol,
      (TrustRegion.minimize f x c o w).1 = .ok sol → c.historyLimit = none →
        ∃ log : List (TrustRegion.Snapshot Float n),
          sol.history.toList = log.map (fun a => a.report.record) ∧
          Replayable (fun a => TrustRegion.Starts f x c a.report) (TrustRegion.Replays f c)
            log) := by
  constructor
  · intro c o w sol h unlimited
    exact QuasiNewton.exists_replayable_of_minimize h unlimited
  · intro c o w sol h unlimited
    exact TrustRegion.exists_replayable_of_minimize h unlimited

theorem history_replays_square :
    (∃ sol log, (QuasiNewton.minimize square #v[2.0] { method := .sr1, maxIters := 2 }
        (.silent : Observer Unit _) ()).1 = .ok sol ∧
      (sol.history.toList.map fun r => (r.stepLength, r.stale)) =
        [(0.0, false), (0.25, false), (1.0, true)] ∧
      sol.history.toList = log.map QuasiNewton.Event.record ∧
      Replayable (QuasiNewton.Starts square #v[2.0])
        (QuasiNewton.Replays square { method := .sr1, maxIters := 2 }) log) ∧
    ∃ sol, ∃ log : List (TrustRegion.Snapshot Float 1),
      (TrustRegion.minimize square #v[2.0] { hessian := .sr1, maxIters := 2 }
        (.silent : Observer Unit _) ()).1 = .ok sol ∧
      (sol.history.toList.map fun r => (r.accepted, r.stale)) =
        [(false, false), (true, false), (true, true)] ∧
      sol.history.toList = log.map (fun a => a.report.record) ∧
      Replayable (fun a => TrustRegion.Starts square #v[2.0] { hessian := .sr1, maxIters := 2 }
          a.report)
        (TrustRegion.Replays square { hessian := .sr1, maxIters := 2 }) log := by
  constructor
  · have hrun : (QuasiNewton.minimize square #v[2.0] { method := .sr1, maxIters := 2 }
        (.silent : Observer Unit _) ()).1.toOption.map
          (fun sol => sol.history.toList.map fun r => (r.stepLength, r.stale)) =
        some [(0.0, false), (0.25, false), (1.0, true)] := by decide +kernel
    obtain ⟨sol, h, hrecords⟩ := Except.toOption_map_eq_some_iff.mp hrun
    obtain ⟨log, hlog⟩ := (history_replays_runs square #v[2.0]).1 _ _ _ sol h rfl
    exact ⟨sol, log, h, hrecords, hlog⟩
  · have hrun : (TrustRegion.minimize square #v[2.0] { hessian := .sr1, maxIters := 2 }
        (.silent : Observer Unit _) ()).1.toOption.map
          (fun sol => sol.history.toList.map fun r => (r.accepted, r.stale)) =
        some [(false, false), (true, false), (true, true)] := by decide +kernel
    obtain ⟨sol, h, hrecords⟩ := Except.toOption_map_eq_some_iff.mp hrun
    obtain ⟨log, hlog⟩ := (history_replays_runs square #v[2.0]).2 _ _ _ sol h rfl
    exact ⟨sol, log, h, hrecords, hlog⟩

end LocalOptimization
