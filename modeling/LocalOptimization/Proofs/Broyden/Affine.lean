import Mathlib
import LocalOptimization.Proofs.Broyden.Transition
import LocalOptimization.Proofs.Difference
import LocalOptimization.Proofs.Elimination
import LocalOptimization.Proofs.Procedure.Progress

/-!
# Affine systems

The differenced Jacobian of an affine system is its matrix, so that the first full step leads to the
solution. A run takes this one step, or none if the residuals at the start are small enough.
-/

namespace LocalOptimization.Broyden

variable {n : Nat} {ε : Type} {a : Matrix ℝ n} {b x : Vector ℝ n} {c : Config ℝ}

/-- The system `Ax + b = 0`. -/
noncomputable def affine (a : Matrix ℝ n) (b : Vector ℝ n) : System ℝ n ε := fun x =>
  .ok (mulVec a x + b)

theorem differenced_affine : differenced (affine a b : System ℝ n ε) x = .ok { jacobian := a } := by
  rw [differenced, Difference.jacobian,
    Difference.jacobianWith_of_affine (f := affine a b) Difference.gradientStep_ne_zero
      fun _ => rfl]
  rfl

/-- The state of a run at a point, with the matrix as its Jacobian. -/
noncomputable def startState (a : Matrix ℝ n) (b x : Vector ℝ n) : State ℝ n where
  current := { x, residuals := mulVec a x + b }
  model := { jacobian := a }
  fresh := true

theorem start_affine (valid : c.Valid) :
    start (affine a b : System ℝ n ε) c x = .ok (startState a b x) :=
  start_eq_ok_iff.mpr ⟨valid, Exact.allFinite x, rfl, rfl, differenced_affine, rfl, rfl⟩

/-- The point at the end of the full step. -/
noncomputable def solved (a : Matrix ℝ n) (b x : Vector ℝ n) : Iterate ℝ n where
  x := x + (1.0 : ℝ) * (solveLinear a (-(mulVec a x + b))).x
  residuals := zeros

theorem residualNorm_solved : (solved a b x).residualNorm = 0 :=
  Exact.norm_zeros

theorem evaluate_solved (h : (solveLinear a (-(mulVec a x + b))).isRegular = true) :
    evaluate (affine a b : System ℝ n ε) (solved a b x).x = .ok (solved a b x) := by
  have hfull : mulVec a ((1.0 : ℝ) * (solveLinear a (-(mulVec a x + b))).x) =
      -(mulVec a x + b) := by
    rw [Exact.mulVec_hmul, Exact.mulVec_solveLinear h]
    ext i hi
    rw [Vector.getElem_hmul, Exact.one_eq, one_mul]
  apply evaluate_eq_ok_iff.mpr
  refine ⟨rfl, ?_⟩
  rw [affine, solved, Exact.mulVec_add_eq_zeros hfull]

theorem decreases_solved (valid : c.Valid) (current : Iterate ℝ n) :
    decreases c current (solved a b x) 1.0 = true := by
  have hbelow := ((Exact.inOpenUnit_iff _).mp valid.sufficientDecrease).2
  have hnonneg : 0 ≤ current.residualNorm := Exact.norm_nonneg current.residuals
  rw [decreases, Exact.isFinite, Bool.true_and, decide_eq_true_iff, residualNorm_solved]
  rw [Exact.one_eq, mul_one]
  exact mul_nonneg (by linarith) hnonneg

theorem attempt_affine (valid : c.Valid)
    (h : (solveLinear a (-(mulVec a x + b))).isRegular = true) :
    attempt (affine a b : System ℝ n ε) c (startState a b x).current (startState a b x).model =
      .ok (some (1.0, solved a b x)) := by
  obtain ⟨budget, hbudget⟩ := Nat.exists_eq_succ_of_ne_zero (Nat.ne_of_gt valid.trialAllowed)
  have hregular :
      (((startState a b x).model.step (startState a b x).current.residuals).isRegular &&
        allFinite ((startState a b x).model.step (startState a b x).current.residuals).x) = true :=
    Bool.and_eq_true_iff.mpr ⟨h, Exact.allFinite _⟩
  have hevaluate : evaluate (affine a b : System ℝ n ε) ((startState a b x).current.x +
      (1.0 : ℝ) * ((startState a b x).model.step (startState a b x).current.residuals).x) =
      .ok (solved a b x) := evaluate_solved h
  rw [attempt, if_pos hregular, hbudget, backtrack, hevaluate]
  dsimp only [bind, Except.bind]
  rw [if_pos (decreases_solved valid _)]
  rfl

/-- The full step from the start. -/
noncomputable def fullStep (a : Matrix ℝ n) (b x : Vector ℝ n) : Accepted ℝ n where
  alpha := 1.0
  next := solved a b x
  model := { jacobian := a }
  refreshed := false

theorem advance_affine (valid : c.Valid)
    (h : (solveLinear a (-(mulVec a x + b))).isRegular = true) :
    (iteration (affine a b : System ℝ n ε) c).advance 1 (startState a b x) =
      .ok (some ((startState a b x).moveTo (fullStep a b x),
        ((startState a b x).moveTo (fullStep a b x)).event 1 1.0 false)) := by
  have hfound : (startState a b x).findStep (affine a b : System ℝ n ε) c =
      .ok (some (fullStep a b x)) := by
    rw [State.findStep, attempt_affine valid h]
    rfl
  change ((startState a b x).advance (affine a b : System ℝ n ε) c 1).mapError Error.system = _
  rw [State.advance, hfound]
  rfl

/-- An affine system whose matrix is eliminated without replacing a pivot is solved by at most one
full step. -/
theorem solve_affine {v : Vector ℝ n} (hregular : (solveLinear a v).isRegular = true)
    (hvalid : c.validate = .ok ()) :
    ∃ sol, solveUnobserved (affine a b : System ℝ n ε) x c = .ok sol ∧
      sol.status = .converged ∧ sol.iterations ≤ 1 ∧
      (sol.iterations = 0 ↔ norm (mulVec a x + b) < c.residualTol) ∧
      (¬ norm (mulVec a x + b) < c.residualTol →
        sol.final.residuals = zeros ∧
        ∃ first step, shown (affine a b : System ℝ n ε) x c .silent () = [first, step] ∧
          sol.history.toList <:+ [first.record, step.record] ∧ step.record.stepLength = 1) := by
  have valid := Config.validate_eq_ok_iff.mp hvalid
  have hstart : (procedure (affine a b : System ℝ n ε) x c).start = .ok (startState a b x) :=
    start_affine valid
  by_cases hsmall : norm (mulVec a x + b) < c.residualTol
  · have hresult := (Procedure.convergesAfter_zero hstart rfl (decide_eq_true hsmall)).result
    rw [procedure_run] at hresult
    exact ⟨_, hresult, rfl, Nat.zero_le 1, iff_of_true rfl hsmall, fun h => absurd hsmall h⟩
  · have hmatrix := isRegular_solveLinear_congr (-(mulVec a x + b)) hregular
    have hsolved : (solved a b x).residualNorm < c.residualTol := by
      rw [residualNorm_solved]
      exact (Exact.isPositive_iff c.residualTol).mp valid.residualTol
    have converges := Procedure.convergesAfter_one hstart rfl (decide_eq_false hsmall)
      valid.allowed (advance_affine valid hmatrix) (decide_eq_true hsolved)
    have hshown := converges.shown
    have hresult := converges.result
    rw [procedure_run] at hshown hresult
    exact ⟨_, hresult, rfl, Nat.le_refl 1, iff_of_false Nat.one_ne_zero hsmall, fun _ =>
      ⟨rfl, _, _, hshown, converges.history, Exact.one_eq⟩⟩

section Example

/-- Elimination swaps the two rows of this matrix. -/
noncomputable def swapped : Matrix ℝ 2 :=
  #v[#v[0.0, 2.0], #v[3.0, 1.0]]

theorem isRegular_swapped : (solveLinear swapped zeros).isRegular = true := by
  have htop : topIndex swapped = 1 := by
    have hle : Scalar.magnitudeLE (0.0 : ℝ) 3.0 = true := by
      rw [Scalar.magnitudeLE, Bool.or_eq_true, decide_eq_true_iff]
      exact .inr (abs_le_abs (by norm_num) (by norm_num))
    simp [topIndex, first, pivotIndex, List.finRange_succ, swapped, hle, Vector.get_eq_getElem]
  apply isRegular_of_topIndex (c := zeros) htop
  · rw [Exact.needsRegularizing_eq_false_iff]
    norm_num [first, swapped, Vector.get_eq_getElem]
  · apply isRegular_of_topIndex (c := zeros) (Fin.fin_one_eq_zero _)
    · rw [Exact.needsRegularizing_eq_false_iff]
      norm_num [first, raise, eliminate, swapped, rest, Vector.get_eq_getElem]
    · rfl

theorem validate_default : Config.validate (K := ℝ) {} = .ok () := by
  rw [Config.validate_eq_ok_iff]
  constructor <;> simp only [Exact.isPositive_iff, Exact.inOpenUnit_iff] <;> norm_num

theorem solve_affine_swapped :
    (solveLinear swapped zeros).isRegular = true ∧ Config.validate (K := ℝ) {} = .ok () ∧
      ∃ sol, solveUnobserved (affine swapped #v[-4, -5] : System ℝ 2 Empty) zeros {} = .ok sol ∧
        sol.status = .converged ∧ sol.iterations = 1 ∧ sol.final.residuals = zeros := by
  obtain ⟨sol, hsol, hstatus, hle, hnone, hfinal⟩ :=
    solve_affine (ε := Empty) (b := #v[-4, -5]) (x := zeros) isRegular_swapped validate_default
  have hlarge : ¬ norm (mulVec swapped zeros + #v[-4, -5]) < (1e-10 : ℝ) := by
    rw [Exact.norm_lt_iff (by norm_num), Exact.mulVec_zeros]
    norm_num [Exact.dot_two]
  have hsome : sol.iterations ≠ 0 := fun h => hlarge (hnone.mp h)
  exact ⟨isRegular_swapped, validate_default, sol, hsol, hstatus, by omega, (hfinal hlarge).1⟩

end Example

end LocalOptimization.Broyden
