import Mathlib
import LocalOptimization.Proofs.Constrained.Methods
import LocalOptimization.Proofs.Double
import LocalOptimization.Proofs.Univariate

/-!
# How far a converged run is feasible

The largest violation leaves out values that are NaN. An equality that is NaN makes the surrogate
NaN as well, so the inner run does not end there; an inequality that is NaN counts as satisfied in
both, and a run may converge at it.
-/

namespace LocalOptimization

variable {n : Nat} {ε σ : Type} {c : ConstraintSet Float n} {x : Vector Float n}

def ConstraintSet.HoldsWithin (c : ConstraintSet Float n) (x : Vector Float n) (t : Float) : Prop :=
  (∀ h ∈ c.equalities, (h.value x).abs < t) ∧ ∀ g ∈ c.inequalities, g.value x < t

/-- The equalities hold at `x` up to a tolerance, and an inequality does unless it is NaN. -/
structure ConstraintSet.HoldsUnlessNaN (c : ConstraintSet Float n) (x : Vector Float n)
    (t : Float) : Prop where
  equalities : ∀ h ∈ c.equalities, (h.value x).abs < t
  inequalities : ∀ g ∈ c.inequalities, (g.value x < t ↔ (g.value x).isNaN = false)

theorem ConstraintSet.HoldsUnlessNaN.holdsWithin_iff {t : Float} (h : c.HoldsUnlessNaN x t) :
    c.HoldsWithin x t ↔ ∀ g ∈ c.inequalities, (g.value x).isNaN = false := by
  constructor
  · rintro ⟨-, hlt⟩ g hmem
    exact (h.inequalities g hmem).mp (hlt g hmem)
  · intro hnumber
    exact ⟨h.equalities, fun g hmem => (h.inequalities g hmem).mpr (hnumber g hmem)⟩

theorem ConstraintSet.lt_of_maxViolation_lt {t : Float} (h : c.maxViolation x < t) :
    (∀ h ∈ c.equalities, (h.value x).abs < t ∨ (h.value x).abs.isNaN = true) ∧
      ∀ g ∈ c.inequalities, g.value x < t ∨ (g.value x).isNaN = true := by
  have hall := (Double.lt_of_foldl_max_lt h).2
  constructor
  · intro h hmem
    exact hall _ (List.mem_append_left _ (List.mem_map_of_mem hmem))
  · intro g hmem
    rcases hall _ (List.mem_append_right _ (List.mem_map_of_mem hmem)) with hlt | hnan
    · exact (Double.lt_of_max_lt hlt).1
    · exact .inr (Double.isNaN_of_isNaN_max hnan).1

namespace Constrained

theorem holdsUnlessNaN_of_maxViolation_lt {t : Float} (h : c.maxViolation x < t)
    (hfinite : ∀ h ∈ c.equalities, (h.value x).isFinite = true) : c.HoldsUnlessNaN x t := by
  obtain ⟨hequalities, hinequalities⟩ := ConstraintSet.lt_of_maxViolation_lt h
  constructor
  · intro h hmem
    rcases hequalities h hmem with hlt | hnan
    · exact hlt
    · rw [Double.isNaN_eq_false_of_isFinite_abs (hfinite h hmem)] at hnan
      cases hnan
  · intro g hmem
    constructor
    · intro hlt
      exact ((Double.lt_iff _ _).mp hlt).1
    · intro hnumber
      rcases hinequalities g hmem with hlt | hnan
      · exact hlt
      · rw [hnumber] at hnan
        cases hnan

theorem Penalty.isFinite_of_evaluates {f : Objective Float n ε} {weight : Float}
    {e : Evaluation Float n} (h : (surrogate f c weight).Evaluates e) :
    ∀ h ∈ c.equalities, (h.value e.x).isFinite = true := by
  intro g hmem
  obtain ⟨value, -, hvalue⟩ := Except.bind_eq_ok_iff.mp h.value
  have hfinite := (Bool.and_eq_true_iff.mp h.finite).2
  rw [← Except.ok.inj hvalue] at hfinite
  have hpenalty := (Double.isFinite_of_isFinite_mul (Double.isFinite_of_isFinite_add hfinite).2).2
  have hsum := (Double.isFinite_of_isFinite_add hpenalty).1
  have hsquare := Double.isFinite_of_isFinite_sum hsum _ (List.mem_map_of_mem hmem)
  exact (Double.isFinite_of_isFinite_mul hsquare).1

theorem AugmentedLagrangian.isFinite_of_evaluates {f : Objective Float n ε} {rho : Float}
    {m : Multipliers Float} {e : Evaluation Float n} (fits : m.Fits c)
    (h : (surrogate f c rho m).Evaluates e) :
    ∀ h ∈ c.equalities, (h.value e.x).isFinite = true := by
  intro g hmem
  obtain ⟨value, -, hvalue⟩ := Except.bind_eq_ok_iff.mp h.value
  have hfinite := (Bool.and_eq_true_iff.mp h.finite).2
  rw [← Except.ok.inj hvalue] at hfinite
  have hsum := (Double.isFinite_of_isFinite_add (Double.isFinite_of_isFinite_add hfinite).1).2
  obtain ⟨i, hi, rfl⟩ := List.getElem_of_mem hmem
  have hm : i < m.equality.length := fits.equality ▸ hi
  have hmem : equalityTerm rho e.x c.equalities[i] m.equality[i] ∈
      c.equalities.zipWith (equalityTerm rho e.x) m.equality := by
    apply List.mem_iff_getElem.mpr
    exact ⟨i, by simpa using ⟨hi, hm⟩, by simp⟩
  have hterm := Double.isFinite_of_isFinite_sum hsum _ hmem
  exact (Double.isFinite_of_isFinite_mul (Double.isFinite_of_isFinite_add hterm).1).2

theorem Penalty.holdsUnlessNaN_of_converged {f : Objective Float n ε} {config : Config Float}
    {o : Observer σ (Record Float n)} {w : σ} {sol : Solution Float n}
    (h : (minimize f c x config o w).1 = .ok sol) (converged : sol.status = .converged) :
    c.HoldsUnlessNaN sol.last.x config.tolerance := by
  have valid := valid_of_minimize h
  rw [minimize_of_valid valid] at h
  obtain ⟨s, inner, -, last⟩ := Reduction.exists_lastIteration h valid.allowed
    (P := fun _ => True) (fun _ _ => trivial) (fun _ _ _ _ _ _ => trivial)
  have hmeasure := last.converged converged
  rw [last.advances.measure] at hmeasure
  have hfinite := isFinite_of_evaluates last.advances.evaluates
  exact holdsUnlessNaN_of_maxViolation_lt hmeasure hfinite

theorem AugmentedLagrangian.holdsUnlessNaN_of_converged {f : Objective Float n ε}
    {config : Config Float} {o : Observer σ (Record Float n)} {w : σ} {sol : Solution Float n}
    (h : (minimize f c x config o w).1 = .ok sol) (converged : sol.status = .converged) :
    c.HoldsUnlessNaN sol.last.x config.tolerance := by
  obtain ⟨s, inner, fits, last⟩ := exists_lastIteration h
  have hmeasure := last.converged converged
  rw [last.advances.measure] at hmeasure
  have hfinite := isFinite_of_evaluates fits last.advances.evaluates
  exact holdsUnlessNaN_of_maxViolation_lt hmeasure hfinite

/-- Where a run of the penalty or of the augmented Lagrangian method has converged, all equalities
hold up to the tolerance, and an inequality does exactly if it is not NaN there. The point is
feasible up to the tolerance exactly if no inequality is NaN. -/
theorem feasible_iff_of_converged (f : Objective Float n ε) (c : ConstraintSet Float n)
    (x : Vector Float n) (o : Observer σ (Record Float n)) (w : σ) (sol : Solution Float n)
    (t : Float)
    (run : (∃ config, config.tolerance = t ∧ (Penalty.minimize f c x config o w).1 = .ok sol) ∨
      ∃ config, config.tolerance = t ∧ (AugmentedLagrangian.minimize f c x config o w).1 = .ok sol)
    (converged : sol.status = .converged) :
    c.HoldsUnlessNaN sol.last.x t ∧
      (c.HoldsWithin sol.last.x t ↔ ∀ g ∈ c.inequalities, (g.value sol.last.x).isNaN = false) := by
  rcases run with ⟨config, rfl, h⟩ | ⟨config, rfl, h⟩
  · have hholds := Penalty.holdsUnlessNaN_of_converged h converged
    exact ⟨hholds, hholds.holdsWithin_iff⟩
  · have hholds := AugmentedLagrangian.holdsUnlessNaN_of_converged h converged
    exact ⟨hholds, hholds.holdsWithin_iff⟩

/-- The square, with its minimizer at the origin. -/
def parabola : Objective Float 1 Empty :=
  .univariate (fun x => x * x) (fun x => 2.0 * x)

/-- The constraints `x = 0` and `x ≤ 1`. -/
def originOnly : ConstraintSet Float 1 where
  equalities := [.univariate id (fun _ => 1.0)]
  inequalities := [.univariate (· - 1.0) (fun _ => 1.0)]

theorem feasible_of_parabola :
    (∃ sol, (Penalty.minimize parabola originOnly #v[2.0] {} .silent ()).1 = .ok sol ∧
      sol.status = .converged ∧ originOnly.HoldsUnlessNaN sol.last.x 1e-6) ∧
    ∃ sol, (AugmentedLagrangian.minimize parabola originOnly #v[2.0] {} .silent ()).1 = .ok sol ∧
      sol.status = .converged ∧ originOnly.HoldsUnlessNaN sol.last.x 1e-6 := by
  constructor
  · have hrun : (Penalty.minimize parabola originOnly #v[2.0] {} .silent ()).1.toOption.map
        (·.status) = some .converged := by decide +kernel
    obtain ⟨sol, h, converged⟩ := Except.toOption_map_eq_some_iff.mp hrun
    have hholds := feasible_iff_of_converged parabola originOnly #v[2.0] .silent () sol 1e-6
      (.inl ⟨{}, rfl, h⟩) converged
    exact ⟨sol, h, converged, hholds.1⟩
  · have hrun : (AugmentedLagrangian.minimize parabola originOnly #v[2.0] {} .silent
        ()).1.toOption.map (·.status) = some .converged := by decide +kernel
    obtain ⟨sol, h, converged⟩ := Except.toOption_map_eq_some_iff.mp hrun
    have hholds := feasible_iff_of_converged parabola originOnly #v[2.0] .silent () sol 1e-6
      (.inr ⟨{}, rfl, h⟩) converged
    exact ⟨sol, h, converged, hholds.1⟩

/-- The square around -1. -/
def shiftedParabola : Objective Float 1 Empty :=
  .univariate (fun x => (x + 1.0) * (x + 1.0)) (fun x => 2.0 * (x + 1.0))

/-- The constraint `√x ≤ 1`. -/
def rootAtMostOne : ConstraintSet Float 1 where
  inequalities := [.univariate (fun x => x.sqrt - 1.0) (fun x => 0.5 / x.sqrt)]

/-- A run converges where an inequality is not defined. -/
theorem converged_at_nan :
    ∃ sol, (Penalty.minimize shiftedParabola rootAtMostOne #v[-1.0] {} .silent ()).1 = .ok sol ∧
      sol.status = .converged ∧ ¬ rootAtMostOne.HoldsWithin sol.last.x 1e-6 := by
  have hrun : (Penalty.minimize shiftedParabola rootAtMostOne #v[-1.0] {} .silent ()).1.toOption.map
      (fun sol => (sol.status, rootAtMostOne.inequalities.any fun g =>
        (g.value sol.last.x).isNaN)) = some (.converged, true) := by decide +kernel
  obtain ⟨sol, h, hsol⟩ := Except.toOption_map_eq_some_iff.mp hrun
  simp only [Prod.mk.injEq] at hsol
  refine ⟨sol, h, hsol.1, ?_⟩
  rintro ⟨-, hwithin⟩
  obtain ⟨g, hmem, hnan⟩ := List.any_eq_true.mp hsol.2
  have hnumber := ((Double.lt_iff _ _).mp (hwithin g hmem)).1
  rw [hnan] at hnumber
  cases hnumber

end Constrained

end LocalOptimization
