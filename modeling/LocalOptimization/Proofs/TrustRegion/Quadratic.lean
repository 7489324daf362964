import Mathlib
import LocalOptimization.Proofs.Difference
import LocalOptimization.Proofs.Elimination
import LocalOptimization.Proofs.Procedure.Methods
import LocalOptimization.Proofs.Procedure.Progress
import LocalOptimization.Proofs.TrustRegion.Transition

/-!
# Convex quadratic functions

The model of a quadratic function is the function itself, whether its derivatives are provided or
differenced. Where the Newton step fits into the ball, the dogleg path ends with it, and the step
leads to the minimizer.
-/

namespace LocalOptimization.TrustRegion

open Exact (IsSymmetric IsPositiveDefinite)

variable {n : Nat} {ε : Type} {a : Matrix ℝ n} {b x d : Vector ℝ n} {c₀ : ℝ}

/-- The objective is a quadratic function. It provides its derivatives or leaves them to central
differences. -/
structure IsQuadratic (f : Objective ℝ n ε) (choice : HessianChoice) (a : Matrix ℝ n)
    (b : Vector ℝ n) (c₀ : ℝ) : Prop where
  domain : ∀ y, f.domain y = true
  value : ∀ y, f.value y = .ok (quadratic a b c₀ y)
  gradient : ∀ y, f.gradient y = .ok (mulVec a y + b) ∨
    f.gradient y = Difference.gradient f.value y
  hessian : ∀ y, f.hessian y = .ok (some a) ∨
    f.hessian y = .ok none ∧ choice = .finiteDifference

section Derivatives

variable {f : Objective ℝ n ε} {choice : HessianChoice}

theorem IsQuadratic.gradient_eq (quadratic : IsQuadratic f choice a b c₀)
    (symmetric : IsSymmetric a) (y : Vector ℝ n) : f.gradient y = .ok (mulVec a y + b) := by
  rcases quadratic.gradient y with hprovided | hdifferenced
  · exact hprovided
  · rw [hdifferenced]
    exact Difference.gradient_of_quadratic symmetric quadratic.value

theorem IsQuadratic.hessian_eq (quadratic : IsQuadratic f choice a b c₀)
    (symmetric : IsSymmetric a) {source : HessianSource ℝ n}
    (hsource : choice = .finiteDifference → source = .finiteDifference) (y : Vector ℝ n) :
    source.hessian f y = .ok a := by
  unfold HessianSource.hessian
  rcases quadratic.hessian y with hprovided | ⟨hnone, hchoice⟩
  · rw [hprovided]
    rfl
  · rw [hnone, hsource hchoice]
    exact Difference.hessian_of_affine symmetric (quadratic.gradient_eq symmetric)

theorem HessianSource.update_ofChoice (choice : HessianChoice) (s y : Vector ℝ n)
    (h : choice = .finiteDifference) :
    ((HessianSource.ofChoice choice).update? s y).getD (.ofChoice choice) = .finiteDifference := by
  rw [h]
  rfl

end Derivatives

section NewtonStep

theorem eq_zeros_of_mulVec (definite : IsPositiveDefinite a) {p : Vector ℝ n}
    (h : mulVec a p = zeros) : p = zeros := by
  by_contra hp
  have hpos : 0 < quadraticForm a p := definite p hp
  rw [quadraticForm, h, Exact.dot_zeros] at hpos
  exact lt_irrefl 0 hpos

theorem eq_neg_of_mulVec (definite : IsPositiveDefinite a) {p q : Vector ℝ n}
    (h : mulVec a p = -mulVec a q) : p = -q := by
  have hsum : p + q = zeros := by
    apply eq_zeros_of_mulVec definite
    rw [Exact.mulVec_add, h]
    ext i hi
    simp [Exact.zero_eq]
  ext i hi
  have hentry : (p + q)[i] = (zeros : Vector ℝ n)[i] := by rw [hsum]
  rw [Vector.getElem_add, getElem_zeros, Exact.zero_eq] at hentry
  rw [Vector.getElem_neg]
  exact eq_neg_of_add_eq_zero_left hentry

variable {m : Model ℝ n} {p : Vector ℝ n} {radius : ℝ}

theorem dot_gradient_newton (h : mulVec m.hessian p = -m.gradient) :
    dot m.gradient p = -quadraticForm m.hessian p := by
  rw [quadraticForm, h, Exact.dot_neg, Exact.dot_comm, neg_neg]

theorem predictedReduction_newton (h : mulVec m.hessian p = -m.gradient) :
    m.predictedReduction p = 0.5 * quadraticForm m.hessian p := by
  rw [Model.predictedReduction, dot_gradient_newton h]
  ring

theorem quadraticForm_newton_pos (definite : IsPositiveDefinite m.hessian)
    (hgradient : m.gradient ≠ zeros) (h : mulVec m.hessian p = -m.gradient) :
    0 < quadraticForm m.hessian p := by
  apply definite p
  rintro rfl
  apply hgradient
  rw [Exact.mulVec_zeros] at h
  ext i hi
  have hentry : (zeros : Vector ℝ n)[i] = (-m.gradient)[i] := by rw [h]
  rw [getElem_zeros, Vector.getElem_neg, Exact.zero_eq] at hentry
  rw [getElem_zeros, Exact.zero_eq]
  exact neg_eq_zero.mp hentry.symm

theorem dogleg_eq_newton (definite : IsPositiveDefinite m.hessian) (hgradient : m.gradient ≠ zeros)
    (hradius : 0 < radius) (hregular : (solveLinear m.hessian (-m.gradient)).isRegular = true)
    (hfits : norm (solveLinear m.hessian (-m.gradient)).x ≤ radius) :
    dogleg m radius = { p := (solveLinear m.hessian (-m.gradient)).x, onBoundary := false } := by
  have hnewton := Exact.mulVec_solveLinear hregular
  have hpos := quadraticForm_newton_pos definite hgradient hnewton
  have hfree := Model.isStuck_of_ne_zeros hgradient hradius
  have hcurved : ¬ quadraticForm m.hessian m.gradient ≤ 0 := not_le.mpr (definite _ hgradient)
  have hdescends : ¬ 0 ≤ dot m.gradient (solveLinear m.hessian (-m.gradient)).x := by
    rw [dot_gradient_newton hnewton]
    exact not_le.mpr (neg_lt_zero.mpr hpos)
  have hgains : ¬ m.predictedReduction (solveLinear m.hessian (-m.gradient)).x < 0 := by
    rw [predictedReduction_newton hnewton]
    linarith
  have hcut : doglegCut m (solveLinear m.hessian (-m.gradient)).x radius =
      { p := (solveLinear m.hessian (-m.gradient)).x, onBoundary := false } := if_pos hfits
  rw [dogleg, if_neg (by simp [hfree])]
  dsimp only
  rw [Exact.zero_eq, hregular, decide_eq_false hcurved, decide_eq_false hdescends, hcut]
  exact if_neg hgains

end NewtonStep

section Run

variable {f : Objective ℝ n ε} {c : Config ℝ}

/-- The state at the start of a run. -/
noncomputable def quadraticStart (a : Matrix ℝ n) (b x : Vector ℝ n) (c₀ : ℝ) (c : Config ℝ) :
    State ℝ n where
  current := { x, value := quadratic a b c₀ x, gradient := mulVec a x + b }
  hessian := a
  source := .ofChoice c.hessian
  radius := c.initialRadius

theorem start_quadratic (hquadratic : IsQuadratic f c.hessian a b c₀) (symmetric : IsSymmetric a)
    (valid : c.Valid) : start f c x = .ok (quadraticStart a b x c₀ c) := by
  have hevaluate : f.evaluate x = .ok (quadraticStart a b x c₀ c).current :=
    Objective.evaluate_eq_ok_iff.mpr
      ⟨rfl, hquadratic.value x, hquadratic.gradient_eq symmetric x⟩
  have hsource : (HessianSource.ofChoice c.hessian).hessian f x = .ok a :=
    hquadratic.hessian_eq symmetric (fun h => by rw [h]; rfl) x
  have hrows : a.all allFinite = true :=
    Vector.all_eq_true.mpr fun i hi => Exact.allFinite a[i]
  refine start_eq_ok_iff.mpr ⟨valid, Exact.allFinite x, _, a, hevaluate, hsource, ?_, rfl⟩
  rw [hquadratic.domain, Evaluation.isFinite, Exact.isFinite, Exact.allFinite, hrows]
  rfl

/-- The Newton step from the start. -/
noncomputable def newtonStep (a : Matrix ℝ n) (b x : Vector ℝ n) : Vector ℝ n :=
  (solveLinear a (-(mulVec a x + b))).x

/-- What is found out about the Newton step. -/
noncomputable def newtonOutcome (a : Matrix ℝ n) (b x : Vector ℝ n) (c₀ : ℝ) : Outcome ℝ n where
  trial := { p := newtonStep a b x, onBoundary := false }
  value := quadratic a b c₀ (x + newtonStep a b x)
  actual := quadratic a b c₀ x - quadratic a b c₀ (x + newtonStep a b x)
  predicted := 0.5 * quadraticForm a (newtonStep a b x)
  ratio := 1

theorem quadratic_sub_newton (symmetric : IsSymmetric a)
    (h : mulVec a (newtonStep a b x) = -(mulVec a x + b)) :
    quadratic a b c₀ x - quadratic a b c₀ (x + newtonStep a b x) =
      0.5 * quadraticForm a (newtonStep a b x) := by
  have hslope := dot_gradient_newton (m := { gradient := mulVec a x + b, hessian := a }) h
  dsimp only at hslope
  rw [quadratic_add symmetric, hslope]
  ring

theorem tryStep_quadratic (hquadratic : IsQuadratic f c.hessian a b c₀)
    (symmetric : IsSymmetric a) (definite : IsPositiveDefinite a) (valid : c.Valid)
    (hdogleg : c.subproblem = .dogleg) (hgradient : mulVec a x + b ≠ zeros)
    (hregular : (solveLinear a (-(mulVec a x + b))).isRegular = true)
    (hfits : norm (newtonStep a b x) ≤ c.initialRadius) :
    (quadraticStart a b x c₀ c).tryStep f c = .ok (newtonOutcome a b x c₀) := by
  have hnewton : mulVec a (newtonStep a b x) = -(mulVec a x + b) :=
    Exact.mulVec_solveLinear hregular
  have hradius := (Exact.isPositive_iff c.initialRadius).mp valid.initialRadius
  have hproposed : c.subproblem.solve (quadraticStart a b x c₀ c).model c.initialRadius =
      (newtonOutcome a b x c₀).trial := by
    rw [hdogleg]
    exact dogleg_eq_newton (m := (quadraticStart a b x c₀ c).model) definite hgradient hradius
      hregular hfits
  have hpredicted : (newtonOutcome a b x c₀).predicted =
      (quadraticStart a b x c₀ c).model.predictedReduction (newtonStep a b x) :=
    (predictedReduction_newton (m := (quadraticStart a b x c₀ c).model) hnewton).symm
  have hpos : 0 < quadraticForm a (newtonStep a b x) :=
    quadraticForm_newton_pos (m := (quadraticStart a b x c₀ c).model) definite hgradient hnewton
  refine State.tryStep_eq_ok_iff.mpr ⟨hproposed.symm, hquadratic.value _, rfl, hpredicted, ?_⟩
  have hfinite : f.isFiniteAt (x + newtonStep a b x) (newtonOutcome a b x c₀).value = true :=
    Bool.and_eq_true_iff.mpr ⟨hquadratic.domain _, rfl⟩
  change (1 : ℝ) = reductionRatio (f.isFiniteAt (x + newtonStep a b x) _)
    (quadratic a b c₀ x - quadratic a b c₀ (x + newtonStep a b x))
    (0.5 * quadraticForm a (newtonStep a b x))
  rw [hfinite, quadratic_sub_newton symmetric hnewton, reductionRatio_of_not_nonpos, div_self]
  · linarith
  · rw [Exact.zero_eq]
    linarith

theorem exists_advance_quadratic (hquadratic : IsQuadratic f c.hessian a b c₀)
    (symmetric : IsSymmetric a) (valid : c.Valid)
    (hregular : (solveLinear a (-(mulVec a x + b))).isRegular = true)
    (htry : (quadraticStart a b x c₀ c).tryStep f c = .ok (newtonOutcome a b x c₀)) :
    ∃ t stale, (iteration f c).advance 1 (quadraticStart a b x c₀ c) =
        .ok (some (t, t.event 1 (newtonOutcome a b x c₀) true stale)) ∧
      t.current.gradient = zeros := by
  have hlarge : ¬ (quadraticStart a b x c₀ c).radius < c.minRadius :=
    not_lt.mpr (le_of_lt valid.minRadius_lt)
  have haccepted : c.eta < (newtonOutcome a b x c₀).ratio :=
    valid.eta_lt.trans (by norm_num [newtonOutcome])
  have hgradient : f.gradient (x + newtonStep a b x) = .ok zeros := by
    rw [hquadratic.gradient_eq symmetric, newtonStep,
      Exact.mulVec_add_eq_zeros (Exact.mulVec_solveLinear hregular)]
  have hhessian (y : Vector ℝ n) :=
    hquadratic.hessian_eq symmetric (HessianSource.update_ofChoice c.hessian (newtonStep a b x) y)
      (x + newtonStep a b x)
  have hadvance : ∃ t stale, (quadraticStart a b x c₀ c).advance f c 1 =
        .ok (some (t, t.event 1 (newtonOutcome a b x c₀) true stale)) ∧
      t.current.gradient = zeros := by
    rw [State.advance, if_neg hlarge, htry]
    dsimp only [bind, Except.bind]
    rw [if_pos haccepted, State.accept]
    dsimp only [newtonOutcome, quadraticStart, bind, Except.bind]
    rw [hgradient]
    dsimp only
    rw [hhessian]
    exact ⟨_, _, rfl, rfl⟩
  obtain ⟨t, stale, h, ht⟩ := hadvance
  exact ⟨t, stale, Except.mapError_eq_ok_iff.mpr h, ht⟩

/-- The dogleg method minimizes a convex quadratic function in one Newton step, if that fits into
the first ball. -/
theorem minimize_quadratic (hquadratic : IsQuadratic f c.hessian a b c₀)
    (symmetric : IsSymmetric a) (definite : IsPositiveDefinite a) {v : Vector ℝ n}
    (hregular : (solveLinear a v).isRegular = true) (hvalid : c.validate = .ok ())
    (hdogleg : c.subproblem = .dogleg) (hallowed : 1 ≤ c.maxIters)
    (hnewton : mulVec a d = mulVec a x + b) (hfits : norm d ≤ c.initialRadius) :
    ∃ sol, minimizeUnobserved f x c = .ok sol ∧ sol.status = .converged ∧
      (norm (mulVec a x + b) < c.gradientTol → sol.iterations = 0) ∧
      (¬ norm (mulVec a x + b) < c.gradientTol →
        sol.iterations = 1 ∧ sol.final.gradient = zeros ∧
        ∃ first step, Solver.shown (fun _ => minimize f x c) .silent () = [first, step] ∧
          sol.history.toList <:+ [first.record, step.record] ∧
          step.record.accepted = true ∧ step.record.ratio = 1) := by
  have valid := Config.validate_eq_ok_iff.mp hvalid
  have htol := (Exact.isPositive_iff c.gradientTol).mp valid.gradientTol
  have hstart : (procedure f x c).start = .ok (quadraticStart a b x c₀ c) :=
    start_quadratic hquadratic symmetric valid
  by_cases hsmall : norm (mulVec a x + b) < c.gradientTol
  · have hresult := (Procedure.convergesAfter_zero hstart rfl (decide_eq_true hsmall)).result
    rw [procedure_run] at hresult
    exact ⟨_, hresult, rfl, fun _ => rfl, fun h => absurd hsmall h⟩
  · have hmatrix := isRegular_solveLinear_congr (-(mulVec a x + b)) hregular
    have hgradient : mulVec a x + b ≠ zeros := by
      intro hzero
      rw [hzero, Exact.norm_zeros] at hsmall
      exact hsmall htol
    have hstep : newtonStep a b x = -d := by
      apply eq_neg_of_mulVec definite
      rw [newtonStep, Exact.mulVec_solveLinear hmatrix, hnewton]
    have htry := tryStep_quadratic hquadratic symmetric definite valid hdogleg hgradient
      hmatrix (by rwa [hstep, Exact.norm_neg])
    obtain ⟨t, stale, hadvance, ht⟩ :=
      exists_advance_quadratic hquadratic symmetric valid hmatrix htry
    have hconverged : t.current.gradientNorm < c.gradientTol := by
      rw [Evaluation.gradientNorm, ht, Exact.norm_zeros]
      exact htol
    have converges := Procedure.convergesAfter_one hstart rfl (decide_eq_false hsmall) hallowed
      hadvance (decide_eq_true hconverged)
    have hshown := converges.shown
    have hresult := converges.result
    rw [procedure_run] at hshown hresult
    exact ⟨_, hresult, rfl, fun h => absurd h hsmall, fun _ =>
      ⟨rfl, ht, _, _, hshown, converges.history, rfl, rfl⟩⟩

end Run

section Example

/-- The matrix of `2x² + 2xy + 2y²`. -/
noncomputable def tilted : Matrix ℝ 2 :=
  identity + outer #v[1, 1] #v[1, 1]

theorem tilted_eq : tilted = #v[#v[2, 1], #v[1, 2]] := by
  ext i hi j hj
  interval_cases i <;> interval_cases j <;> norm_num [tilted]

/-- Half of that form, without derivatives of its own. -/
noncomputable def tiltedForm : Objective ℝ 2 Empty where
  value y := .ok (quadratic tilted zeros 0 y)

theorem isQuadratic_tiltedForm : IsQuadratic tiltedForm .finiteDifference tilted zeros 0 where
  domain _ := rfl
  value _ := rfl
  gradient _ := .inr rfl
  hessian _ := .inr ⟨rfl, rfl⟩

theorem isSymmetric_tilted : IsSymmetric tilted :=
  Exact.isSymmetric_identity.add (Exact.isSymmetric_outer _)

theorem isPositiveDefinite_tilted : IsPositiveDefinite tilted := by
  intro v hv
  rw [tilted, Exact.quadraticForm_add_left, Exact.quadraticForm_outer, quadraticForm,
    Exact.identity_mulVec]
  exact add_pos_of_pos_of_nonneg (Exact.dot_self_pos hv) (mul_self_nonneg _)

theorem isRegular_tilted : (solveLinear tilted zeros).isRegular = true := by
  apply Exact.isRegular_two <;> norm_num [tilted_eq, Vector.get_eq_getElem]

theorem validate_wide : Config.validate (K := ℝ) { initialRadius := 10 } = .ok () := by
  rw [Config.validate_eq_ok_iff]
  constructor <;> simp only [Exact.isPositive_iff, Exact.isFinite] <;> norm_num

theorem minimize_quadratic_tilted :
    IsQuadratic tiltedForm .finiteDifference tilted zeros 0 ∧ IsSymmetric tilted ∧
      IsPositiveDefinite tilted ∧ (solveLinear tilted zeros).isRegular = true ∧
      ∃ sol, minimizeUnobserved tiltedForm #v[1, 1] { initialRadius := 10 } = .ok sol ∧
        sol.status = .converged ∧ sol.iterations = 1 ∧ sol.final.gradient = zeros := by
  have hslope : mulVec tilted #v[1, 1] = mulVec tilted #v[1, 1] + zeros := by
    ext i hi
    simp [Exact.zero_eq]
  have hfits : norm (#v[1, 1] : Vector ℝ 2) ≤ 10 := by
    rw [Exact.norm_le_iff (by norm_num)]
    norm_num [Exact.dot_two]
  have hlarge : ¬ norm (mulVec tilted #v[1, 1] + zeros) < (1e-6 : ℝ) := by
    rw [← hslope, Exact.norm_lt_iff (by norm_num)]
    norm_num [Exact.dot_two, tilted_eq]
  obtain ⟨sol, hsol, hstatus, -, hfinal⟩ :=
    minimize_quadratic (c := { initialRadius := 10 }) isQuadratic_tiltedForm isSymmetric_tilted
      isPositiveDefinite_tilted isRegular_tilted validate_wide rfl (by norm_num) hslope hfits
  exact ⟨isQuadratic_tiltedForm, isSymmetric_tilted, isPositiveDefinite_tilted, isRegular_tilted,
    sol, hsol, hstatus, (hfinal hlarge).1, (hfinal hlarge).2.1⟩

end Example

end LocalOptimization.TrustRegion
