import Mathlib
import LocalOptimization.Proofs.Constrained.Methods
import LocalOptimization.Proofs.Double
import LocalOptimization.Proofs.Univariate

/-!
# The barrier keeps to the interior

On doubles the surrogate of the barrier method is infinite wherever an inequality does not hold
strictly, and a descent never moves to a point whose value is not finite. Hence no outer iteration
leaves the interior, although none of them checks it.
-/

namespace LocalOptimization.Constrained.Barrier

variable {n : Nat} {ε σ : Type} {f : Objective Float n ε} {c : ConstraintSet Float n}
variable {config : Config Float} {x : Vector Float n}

theorem interior_of_evaluates {t : Float} {e : Evaluation Float n}
    (h : (surrogate f c t).Evaluates e) : c.interior e.x = true := by
  by_contra outside
  have hvalue : (surrogate f c t).value e.x = .ok Scalar.infinity := by
    simp [surrogate, outside]
    rfl
  have hinfinite : e.value = Scalar.infinity := by
    rw [h.value] at hvalue
    exact Except.ok.inj hvalue
  have hfinite := (Bool.and_eq_true_iff.mp h.finite).2
  rw [hinfinite, Double.isFinite_infinity] at hfinite
  cases hfinite

theorem interior_of_advances {i : Nat} {s t : Reduction.State Float n}
    {inner : QuasiNewton.Solution Float n}
    (advances : (reduction f c config).Advances f i s t inner) : c.interior t.last.x = true := by
  have hinterior := interior_of_evaluates advances.evaluates
  exact hinterior

theorem lt_zero_of_interior (h : c.interior x = true) :
    ∀ g ∈ c.inequalities, g.value x < 0.0 ∧ (g.value x).isNaN = false := by
  intro g hg
  have hlt := (c.interior_iff x).mp h g hg
  exact ⟨hlt, ((Double.lt_iff _ _).mp hlt).1⟩

/-- If the barrier method returns a result, then every inequality holds strictly, with a value that
is not NaN, at the returned point, at every point of the history and at every point that was
reported to the observer. -/
theorem strictly_feasible_of_minimize {o : Observer σ (Record Float n)} {w : σ}
    {sol : Solution Float n} (h : (minimize f c x config o w).1 = .ok sol) :
    ∃ events : List (Record Float n),
      minimize f c x config o.logging (w, #[]) =
        (.ok sol, (minimize f c x config o w).2, events.toArray) ∧
      ∀ record ∈ sol.last :: (sol.history.toList ++ events),
        ∀ g ∈ c.inequalities, g.value record.x < 0.0 ∧ (g.value record.x).isNaN = false := by
  obtain ⟨valid, equalities, interior⟩ := valid_of_minimize h
  rw [minimize_of_valid valid equalities interior] at h
  obtain ⟨first, events, ending, hstart, outcome, rfl, hlogging⟩ := Reduction.exists_outcome h
  have hfirst : c.interior first.last.x = true := by
    obtain ⟨-, objective, -, -, rfl⟩ := Reduction.start_eq_ok_iff.mp hstart
    exact interior
  obtain ⟨hlast, hevents⟩ := Reduction.chain_invariant
    (P := fun s => c.interior s.last.x = true) (Q := fun record => c.interior record.x = true)
    (fun _ _ _ _ _ advances => ⟨interior_of_advances advances, interior_of_advances advances⟩)
    outcome.chain hfirst
  refine ⟨events, ?_, ?_⟩
  · rw [minimize_of_valid valid equalities interior, minimize_of_valid valid equalities interior]
    exact hlogging
  · intro record hrecord
    apply lt_zero_of_interior
    rcases List.mem_cons.mp hrecord with rfl | hrecord
    · exact hlast
    · rcases List.mem_append.mp hrecord with hhistory | hevent
      · exact hevents record (Reduction.mem_events_of_mem_history outcome hhistory)
      · exact hevents record hevent

/-- The objective that is zero everywhere. -/
def flat : Objective Float 1 Empty :=
  .univariate (fun _ => 0.0) (fun _ => 0.0)

/-- The inequality `x ≤ 1`. -/
def atMostOne : ConstraintSet Float 1 where
  inequalities := [.univariate (· - 1.0) (fun _ => 1.0)]

def coarse : Config Float where
  inner := { gradientTol := 2.0 }
  tolerance := 2.0

/-- The value of the surrogate at the origin. -/
def originValue : Float :=
  1.0 * 0.0 - Scalar.sum [Float.log (-(0.0 - 1.0))]

theorem exists_minimize_flat (hfinite : originValue.isFinite = true) :
    ∃ sol, (minimize flat atMostOne #v[0.0] coarse .silent ()).1 = .ok sol := by
  have hvalid : coarse.validate = .ok () := by decide +kernel
  have hinterior : atMostOne.interior #v[0.0] = true := by decide +kernel
  rw [minimize_of_valid (Config.validate_eq_ok_iff.mp hvalid) rfl hinterior]
  let r : Reduction Float 1 Empty := reduction flat atMostOne coarse
  have hstart := Reduction.start_eq_ok_iff (r := r) (f := flat) (x := #v[0.0]) |>.mpr
    ⟨by decide +kernel, 0.0, rfl, by decide +kernel, rfl⟩
  let e : Evaluation Float 1 := {
    x := #v[0.0], value := originValue
    gradient := (1.0 : Float) * #v[0.0] + (-1.0 / (0.0 - 1.0) : Float) * #v[1.0] }
  have hevaluate : (surrogate flat atMostOne 1.0).evaluate #v[0.0] = .ok e :=
    Objective.evaluate_eq_ok_iff.mpr ⟨rfl, rfl, rfl⟩
  have hgradient : allFinite e.gradient = true := by decide +kernel
  have hfinite : ((surrogate flat atMostOne 1.0).domain #v[0.0] && e.isFinite) = true := by
    simp only [Evaluation.isFinite, hgradient, Bool.and_true]
    exact Bool.and_eq_true_iff.mpr ⟨by decide +kernel, hfinite⟩
  have hinner := QuasiNewton.start_eq_ok_iff (c := r.innerConfig 1.0) |>.mpr
    ⟨by decide +kernel, by decide +kernel, e, hevaluate, hfinite, rfl⟩
  obtain ⟨sol, hsol, -⟩ := Reduction.exists_minimize_of_stationary coarse.maxOuterIters
    coarse.historyLimit .silent () hstart hinner (by decide +kernel) (by decide +kernel) (by decide)
  exact ⟨sol, hsol⟩

/-- A run without inequalities, and one with an inequality, which has a result if the logarithm of
1 is finite: no computation in the logic tells what the logarithm of a double is. -/
theorem strictly_feasible_of_minimize_flat :
    (∃ sol, (minimize flat {} #v[0.0] {} .silent ()).1 = .ok sol ∧
      ∃ events : List (Record Float 1),
        (minimize flat {} #v[0.0] {} (Observer.silent).logging ((), #[])).2.2 = events.toArray ∧
        ∀ record ∈ sol.last :: (sol.history.toList ++ events),
          ∀ g ∈ ({} : ConstraintSet Float 1).inequalities,
            g.value record.x < 0.0 ∧ (g.value record.x).isNaN = false) ∧
    (originValue.isFinite = false ∨
      ∃ sol, (minimize flat atMostOne #v[0.0] coarse .silent ()).1 = .ok sol ∧
        ∃ events : List (Record Float 1),
          (minimize flat atMostOne #v[0.0] coarse (Observer.silent).logging ((), #[])).2.2 =
            events.toArray ∧
          ∀ record ∈ sol.last :: (sol.history.toList ++ events),
            ∀ g ∈ atMostOne.inequalities,
              g.value record.x < 0.0 ∧ (g.value record.x).isNaN = false) := by
  constructor
  · have hok : (minimize flat {} #v[0.0] {} .silent ()).1.isOk = true := by decide +kernel
    cases h : (minimize flat {} #v[0.0] {} .silent ()).1 with
    | error e => simp [h, Except.isOk, Except.toBool] at hok
    | ok sol =>
        obtain ⟨events, hlogging, hfeasible⟩ := strictly_feasible_of_minimize h
        exact ⟨sol, rfl, events, by rw [hlogging], hfeasible⟩
  · cases hfinite : originValue.isFinite with
    | false => exact .inl rfl
    | true =>
        obtain ⟨sol, h⟩ := exists_minimize_flat hfinite
        obtain ⟨events, hlogging, hfeasible⟩ := strictly_feasible_of_minimize h
        exact .inr ⟨sol, h, events, by rw [hlogging], hfeasible⟩

end LocalOptimization.Constrained.Barrier
