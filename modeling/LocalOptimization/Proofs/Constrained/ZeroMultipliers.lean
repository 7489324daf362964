import Mathlib
import LocalOptimization.Proofs.Constrained.Lagrangian
import LocalOptimization.Proofs.Procedure

/-!
# The augmented Lagrangian without multipliers

As long as all multipliers are zero, the augmented Lagrangian is the quadratic penalty with half the
weight. Its first outer iteration is therefore that of the penalty method: both minimize the same
surrogate from the same start, and estimate the same multipliers at its end.
-/

namespace LocalOptimization.Constrained

section First

variable {K : Type} [Scalar K] {n : Nat} {ε σ : Type} {f : Objective K n ε} {x : Vector K n}

namespace Reduction

variable {r r' : Reduction K n ε} {t : State K n} {e : Error K ε}
variable {budget : Nat} {limit : Option Nat} {o : Observer σ (Record K n)} {w : σ}

/-- A run from `x` fails before its first record. -/
def FailsAtOnce (r : Reduction K n ε) (f : Objective K n ε) (x : Vector K n) (e : Error K ε) :
    Prop :=
  r.start f x = .error e ∨ ∃ s, r.start f x = .ok s ∧ r.advance f 1 s = .error e

/-- The first outer iteration of a run from `x` leads to `t`. -/
def LeadsFirst (r : Reduction K n ε) (f : Objective K n ε) (x : Vector K n) (t : State K n) :
    Prop :=
  ∃ s inner, r.start f x = .ok s ∧ r.Advances f 1 s t inner

theorem failsAtOnce_or_leadsFirst (r : Reduction K n ε) (f : Objective K n ε) (x : Vector K n) :
    (∃ e, r.FailsAtOnce f x e) ∨ ∃ t, r.LeadsFirst f x t := by
  cases hstart : r.start f x with
  | error e => exact .inl ⟨e, .inl hstart⟩
  | ok s =>
      cases hadvance : r.advance f 1 s with
      | error e => exact .inl ⟨e, .inr ⟨s, hstart, hadvance⟩⟩
      | ok next =>
          obtain ⟨t, inner, -, advances⟩ := advance_eq_ok_iff.mp hadvance
          exact .inr ⟨t, s, inner, hstart, advances⟩

theorem FailsAtOnce.minimize_eq (fails : r.FailsAtOnce f x e) :
    r.minimize f x (budget + 1) limit o w = (.error e, w) := by
  rcases fails with hstart | ⟨s, hstart, hadvance⟩
  · exact minimize_of_start_error hstart
  · have hrunning := converged_of_start hstart
    rw [minimize_of_start hstart,
      Iteration.continueFor_of_error (p := begin limit s) hrunning hadvance]
    rfl

variable (budget limit o w) in
theorem LeadsFirst.exists_shown (leads : r.LeadsFirst f x t) :
    ∃ rest, (r.minimize f x (budget + 1) limit o.logging (w, #[])).2.2.toList = t.last :: rest := by
  obtain ⟨s, inner, hstart, advances⟩ := leads
  have hadvance := advance_eq_some_iff.mpr ⟨rfl, inner, advances⟩
  have hrunning := converged_of_start hstart
  rw [minimize_of_start hstart]
  cases hobserve : (o.observe w t.last).1 with
  | true =>
      have hlogging : (o.logging.observe (w, #[]) t.last).1 = true := hobserve
      rw [Iteration.continueFor_of_stop hrunning hadvance hlogging]
      exact ⟨[], rfl⟩
  | false =>
      have hlogging : (o.logging.observe (w, #[]) t.last).1 = false := hobserve
      rw [Iteration.continueFor_of_pass hrunning hadvance hlogging]
      obtain ⟨events, -, -, hafter, -⟩ := (r.iteration f).exists_chain o.logging budget
        ((r.iteration f).progressTo (begin limit s) t t.last) (o.logging.observe (w, #[]) t.last).2
      refine ⟨events, ?_⟩
      dsimp only
      rw [hafter]
      change (o.logging.after ((o.observe w t.last).2, #[t.last]) events).2.toList = _
      rw [Observer.after_logging]
      simp

variable (limit o w) in
theorem LeadsFirst.exists_minimize (leads : r.LeadsFirst f x t) :
    ∃ sol, (r.minimize f x 1 limit o w).1 = .ok sol ∧ sol.last = t.last ∧
      sol.multipliers = t.multipliers := by
  obtain ⟨s, inner, hstart, advances⟩ := leads
  have hadvance := advance_eq_some_iff.mpr ⟨rfl, inner, advances⟩
  have hrunning := converged_of_start hstart
  rw [minimize_of_start hstart]
  cases hobserve : (o.observe w t.last).1 with
  | true =>
      rw [Iteration.continueFor_of_stop hrunning hadvance hobserve]
      exact ⟨_, rfl, rfl, rfl⟩
  | false =>
      rw [Iteration.continueFor_of_pass hrunning hadvance hobserve]
      exact ⟨_, rfl, rfl, rfl⟩

/-- Two reductions begin alike: with the same surrogate, inner parameters and measure, and the same
multipliers after the first outer iteration. -/
structure BeginsLike (r r' : Reduction K n ε) : Prop where
  surrogate : r'.surrogate r'.initialParameter r'.initialMultipliers =
    r.surrogate r.initialParameter r.initialMultipliers
  innerConfig : r'.innerConfig r'.initialParameter = r.innerConfig r.initialParameter
  measure : r'.measure r'.initialParameter = r.measure r.initialParameter
  updateMultipliers : ∀ y, r'.updateMultipliers r'.initialParameter y r'.initialMultipliers =
    r.updateMultipliers r.initialParameter y r.initialMultipliers

namespace BeginsLike

theorem start_eq (alike : r.BeginsLike r') (f : Objective K n ε) (x : Vector K n) :
    r'.start f x = (r.start f x).map fun s => {
      last := { s.last with parameter := r'.initialParameter }
      parameter := r'.initialParameter
      multipliers := r'.initialMultipliers } := by
  simp only [start, alike.measure]
  cases allFinite x with
  | false => rfl
  | true =>
      cases f.value x with
      | error e => rfl
      | ok v =>
          change (if (!f.isFiniteAt x v) = true then .error .nonFiniteStart else .ok _) =
            (if (!f.isFiniteAt x v) = true then .error .nonFiniteStart else .ok _ :
              Except (Error K ε) _).map _
          split <;> rfl

theorem failsAtOnce (alike : r.BeginsLike r') (fails : r.FailsAtOnce f x e) :
    r'.FailsAtOnce f x e := by
  have hstart' := alike.start_eq f x
  rcases fails with hstart | ⟨s, hstart, hadvance⟩
  · rw [hstart] at hstart'
    exact .inl hstart'
  · rw [hstart] at hstart'
    refine .inr ⟨_, hstart', ?_⟩
    obtain ⟨-, objective, -, -, rfl⟩ := start_eq_ok_iff.mp hstart
    rw [advance_eq_error_iff] at hadvance ⊢
    dsimp only at hadvance ⊢
    rw [alike.surrogate, alike.innerConfig]
    exact hadvance

theorem leadsFirst (alike : r.BeginsLike r') (leads : r.LeadsFirst f x t) :
    ∃ t', r'.LeadsFirst f x t' ∧ t'.last = { t.last with parameter := r'.initialParameter } ∧
      t'.multipliers = t.multipliers := by
  obtain ⟨s, inner, hstart, advances⟩ := leads
  have hstart' := alike.start_eq f x
  rw [hstart] at hstart'
  obtain ⟨-, objective, -, -, rfl⟩ := start_eq_ok_iff.mp hstart
  refine ⟨{
    last := { t.last with parameter := r'.initialParameter }
    parameter := r'.nextParameter r'.initialParameter
    multipliers := t.multipliers }, ⟨_, inner, hstart', ?_⟩, rfl, rfl⟩
  exact {
    minimized := by
      dsimp only
      rw [alike.surrogate, alike.innerConfig]
      exact advances.minimized
    objective := advances.objective
    iteration := advances.iteration
    x := advances.x
    measure := by
      dsimp only
      rw [alike.measure]
      exact advances.measure
    usedParameter := rfl
    innerIterations := advances.innerIterations
    innerStatus := advances.innerStatus
    parameter := rfl
    multipliers := by
      dsimp only
      rw [alike.updateMultipliers]
      exact advances.multipliers }

end BeginsLike

end Reduction

/-- The first records of both runs agree but for their parameter, which is as given in the second
run, or both runs fail with the same error before they record anything. -/
def BeginAlike (parameter : K) (solve solve' : Solver (Record K n) (Error K ε) (Solution K n))
    (o : Observer σ (Record K n)) (w : σ) : Prop :=
  (∃ record rest rest', solve.shown o w = record :: rest ∧
    solve'.shown o w = { record with parameter } :: rest') ∨
  ∃ e, solve.shown o w = [] ∧ solve'.shown o w = [] ∧ (solve σ o w).1 = .error e ∧
    (solve' σ o w).1 = .error e

omit [Scalar K] in
theorem BeginAlike.of_error {parameter : K}
    {solve solve' : Solver (Record K n) (Error K ε) (Solution K n)} {e : Error K ε}
    (h : ∀ τ o w, solve τ o w = (.error e, w)) (h' : ∀ τ o w, solve' τ o w = (.error e, w))
    (o : Observer σ (Record K n)) (w : σ) : BeginAlike parameter solve solve' o w := by
  refine .inr ⟨e, ?_, ?_, ?_, ?_⟩ <;> simp only [Solver.shown, h, h']

variable {r r' : Reduction K n ε} {budget budget' : Nat} {limit limit' : Option Nat}

theorem Reduction.BeginsLike.beginAlike (alike : r.BeginsLike r') (f : Objective K n ε)
    (x : Vector K n) (allowed : 0 < budget) (allowed' : 0 < budget') (o : Observer σ (Record K n))
    (w : σ) :
    BeginAlike r'.initialParameter (fun _ => r.minimize f x budget limit)
      (fun _ => r'.minimize f x budget' limit') o w := by
  obtain ⟨budget, rfl⟩ := Nat.exists_eq_succ_of_ne_zero (Nat.ne_of_gt allowed)
  obtain ⟨budget', rfl⟩ := Nat.exists_eq_succ_of_ne_zero (Nat.ne_of_gt allowed')
  rcases r.failsAtOnce_or_leadsFirst f x with ⟨e, fails⟩ | ⟨t, leads⟩
  · exact .of_error (fun _ _ _ => fails.minimize_eq)
      (fun _ _ _ => (alike.failsAtOnce fails).minimize_eq) o w
  · obtain ⟨t', leads', hlast, -⟩ := alike.leadsFirst leads
    obtain ⟨rest, hshown⟩ := leads.exists_shown budget limit o w
    obtain ⟨rest', hshown'⟩ := leads'.exists_shown budget' limit' o w
    rw [hlast] at hshown'
    exact .inl ⟨t.last, rest, rest', hshown, hshown'⟩

theorem Reduction.BeginsLike.multipliers_eq (alike : r.BeginsLike r') (f : Objective K n ε)
    (x : Vector K n) (o : Observer σ (Record K n)) (w : σ) :
    (r'.minimize f x 1 limit' o w).1.map Solution.multipliers =
      (r.minimize f x 1 limit o w).1.map Solution.multipliers := by
  rcases r.failsAtOnce_or_leadsFirst f x with ⟨e, fails⟩ | ⟨t, leads⟩
  · rw [fails.minimize_eq, (alike.failsAtOnce fails).minimize_eq]
  · obtain ⟨t', leads', -, hmultipliers⟩ := alike.leadsFirst leads
    obtain ⟨sol, hsol, -, hsame⟩ := leads.exists_minimize limit o w
    obtain ⟨sol', hsol', -, hsame'⟩ := leads'.exists_minimize limit' o w
    rw [hsol, hsol']
    exact congrArg Except.ok (hsame'.trans (hmultipliers.trans hsame.symm))

end First

namespace AugmentedLagrangian

variable {n : Nat} {ε σ : Type} {f : Objective ℝ n ε} {c : ConstraintSet ℝ n} {x : Vector ℝ n}
variable {rho : ℝ}

section Surrogate

theorem equalityTerm_zero (rho : ℝ) (h : Constraint ℝ n) :
    equalityTerm rho x h 0.0 = rho / 2 * (h.value x * h.value x) := by
  rw [equalityTerm, Exact.zero_eq]
  norm_num
  ring

theorem shiftedInequality_zero (hrho : 0 ≤ rho) (g : Constraint ℝ n) :
    shiftedInequality rho x g 0.0 = rho * Penalty.excess g x := by
  rw [shiftedInequality_eq, Penalty.excess_eq, Exact.zero_eq, zero_add, mul_max_of_nonneg _ _ hrho,
    mul_zero]

theorem inequalityTerm_zero (hrho : 0 < rho) (g : Constraint ℝ n) :
    inequalityTerm rho x g 0.0 = rho / 2 * (Penalty.excess g x * Penalty.excess g x) := by
  rw [inequalityTerm, shiftedInequality_zero (le_of_lt hrho), Exact.zero_eq]
  norm_num
  field_simp

theorem updateMultipliers_initial (hrho : 0 ≤ rho) (c : ConstraintSet ℝ n) (x : Vector ℝ n) :
    updateMultipliers c rho x (initialMultipliers c) = Penalty.multipliers c (rho / 2) x := by
  have htwice : 2.0 * (rho / 2) = rho := by norm_num
  have hequality (h : Constraint ℝ n) : shiftedEquality rho x h 0.0 = rho * h.value x := by
    rw [shiftedEquality, Exact.zero_eq, zero_add]
  simp only [updateMultipliers, initialMultipliers, Penalty.multipliers, List.zipWith_map_right,
    List.zipWith_self, hequality, shiftedInequality_zero hrho, htwice]

theorem value_surrogate_initial (hrho : 0 < rho) (f : Objective ℝ n ε) (c : ConstraintSet ℝ n)
    (x : Vector ℝ n) :
    (surrogate f c rho (initialMultipliers c)).value x =
      (Penalty.surrogate f c (rho / 2)).value x := by
  simp only [surrogate, Penalty.surrogate, initialMultipliers, List.zipWith_map_right,
    List.zipWith_self, equalityTerm_zero, inequalityTerm_zero hrho, Exact.sum_eq,
    List.sum_map_mul_left]
  cases f.value x with
  | error e => rfl
  | ok v => exact congrArg Except.ok (by ring)

theorem gradient_surrogate_initial (hrho : 0 ≤ rho) (f : Objective ℝ n ε) (c : ConstraintSet ℝ n)
    (x : Vector ℝ n) :
    (surrogate f c rho (initialMultipliers c)).gradient x =
      (Penalty.surrogate f c (rho / 2)).gradient x := by
  cases hgradient : f.gradient x with
  | error e =>
      simp only [surrogate, Penalty.surrogate, hgradient]
      rfl
  | ok g =>
      rw [gradient_surrogate hgradient, Penalty.gradient_surrogate hgradient,
        updateMultipliers_initial hrho]

/-- Without multipliers the augmented Lagrangian is the quadratic penalty. -/
theorem surrogate_initial (hrho : 0 < rho) (f : Objective ℝ n ε) (c : ConstraintSet ℝ n) :
    surrogate f c rho (initialMultipliers c) = Penalty.surrogate f c (rho / 2) := by
  have hvalue := funext (value_surrogate_initial hrho f c)
  have hgradient := funext (gradient_surrogate_initial (le_of_lt hrho) f c)
  calc
    surrogate f c rho (initialMultipliers c)
        = { Penalty.surrogate f c (rho / 2) with
            value := (surrogate f c rho (initialMultipliers c)).value
            gradient := (surrogate f c rho (initialMultipliers c)).gradient } := rfl
    _ = Penalty.surrogate f c (rho / 2) := by rw [hvalue, hgradient]

end Surrogate

theorem beginsLike_penalty {a : Config ℝ} {p : Penalty.Config ℝ} (hrho : 0 < a.initialRho)
    (hpenalty : p.initialPenalty = a.initialRho / 2) (hinner : p.inner = a.inner)
    (f : Objective ℝ n ε) (c : ConstraintSet ℝ n) :
    (reduction f c a).BeginsLike (Penalty.reduction f c p) where
  surrogate := by
    change Penalty.surrogate f c p.initialPenalty =
      surrogate f c a.initialRho (initialMultipliers c)
    rw [hpenalty, surrogate_initial hrho]
  innerConfig := hinner
  measure := rfl
  updateMultipliers y := by
    change Penalty.multipliers c p.initialPenalty y =
      updateMultipliers c a.initialRho y (initialMultipliers c)
    rw [hpenalty, updateMultipliers_initial (le_of_lt hrho)]

/-- The augmented Lagrangian without multipliers is the quadratic penalty with half the weight, and
so the first outer iterations of both methods agree, and the multipliers after them. -/
theorem agrees_with_penalty (f : Objective ℝ n ε) (c : ConstraintSet ℝ n) (x : Vector ℝ n)
    (o : Observer σ (Record ℝ n)) (w : σ) :
    (∀ rho, 0 < rho → ∀ y,
      (surrogate f c rho (initialMultipliers c)).value y =
        (Penalty.surrogate f c (rho / 2)).value y ∧
      (surrogate f c rho (initialMultipliers c)).gradient y =
        (Penalty.surrogate f c (rho / 2)).gradient y) ∧
    ∀ (a : Config ℝ) (p : Penalty.Config ℝ), p.initialPenalty = a.initialRho / 2 →
      p.inner = a.inner → p.validate = a.validate →
      BeginAlike p.initialPenalty (fun _ => minimize f c x a) (fun _ => Penalty.minimize f c x p)
          o w ∧
        (a.maxOuterIters = 1 → p.maxOuterIters = 1 →
          (Penalty.minimize f c x p o w).1.map Solution.multipliers =
            (minimize f c x a o w).1.map Solution.multipliers) := by
  constructor
  · intro rho hrho y
    exact ⟨value_surrogate_initial hrho f c y, gradient_surrogate_initial (le_of_lt hrho) f c y⟩
  · intro a p hpenalty hinner hvalidate
    cases ha : a.validate with
    | error cause =>
        have hrun (τ : Type) (o : Observer τ (Record ℝ n)) (w : τ) :
            minimize f c x a o w = (.error (.invalidConfig cause), w) := by rw [minimize, ha]
        have hrun' (τ : Type) (o : Observer τ (Record ℝ n)) (w : τ) :
            Penalty.minimize f c x p o w = (.error (.invalidConfig cause), w) := by
          rw [Penalty.minimize, hvalidate, ha]
        exact ⟨.of_error hrun hrun' o w, fun _ _ => by rw [hrun, hrun']⟩
    | ok =>
        have valid := Config.validate_eq_ok_iff.mp ha
        have valid' := Penalty.Config.validate_eq_ok_iff.mp (hvalidate.trans ha)
        have alike := beginsLike_penalty valid.initial_pos hpenalty hinner f c
        have hrun : (fun _ => minimize f c x a : Solver (Record ℝ n) (Error ℝ ε) (Solution ℝ n)) =
            fun _ => (reduction f c a).minimize f x a.maxOuterIters a.historyLimit := by
          funext τ o w
          exact minimize_of_valid valid
        have hrun' : (fun _ => Penalty.minimize f c x p :
              Solver (Record ℝ n) (Error ℝ ε) (Solution ℝ n)) =
            fun _ => (Penalty.reduction f c p).minimize f x p.maxOuterIters p.historyLimit := by
          funext τ o w
          exact Penalty.minimize_of_valid valid'
        constructor
        · rw [hrun, hrun']
          exact alike.beginAlike f x valid.allowed valid'.allowed o w
        · intro hone hone'
          rw [minimize_of_valid valid, Penalty.minimize_of_valid valid', hone, hone']
          exact alike.multipliers_eq f x o w

section Example

theorem validate_eq_penalty :
    Penalty.Config.validate (K := ℝ) { initialPenalty := 0.5, tolerance := 2, maxOuterIters := 1 } =
      Config.validate (K := ℝ) { tolerance := 2, maxOuterIters := 1 } := by
  rw [Config.validate_eq_ok_iff.mpr (valid_of_allowed one_pos), Penalty.Config.validate_eq_ok_iff]
  refine ⟨?_, ⟨rfl, ?_⟩, ?_, ?_, one_pos, validate_defaultInner⟩
  · rw [Exact.isPositive_iff]
    norm_num
  · norm_num
  · rintro cap ⟨⟩
    exact ⟨rfl, by norm_num⟩
  · rw [Exact.isPositive_iff]
    norm_num

theorem agrees_with_penalty_line :
    ∃ sol sol' record rest rest',
      (minimize line atOrigin #v[1] { tolerance := 2, maxOuterIters := 1 } .silent ()).1 =
        .ok sol ∧
      (Penalty.minimize line atOrigin #v[1]
        { initialPenalty := 0.5, tolerance := 2, maxOuterIters := 1 } .silent ()).1 = .ok sol' ∧
      sol'.multipliers = sol.multipliers ∧
      Solver.shown (fun _ => minimize line atOrigin #v[1]
        { tolerance := 2, maxOuterIters := 1 }) .silent () = record :: rest ∧
      Solver.shown (fun _ => Penalty.minimize line atOrigin #v[1]
        { initialPenalty := 0.5, tolerance := 2, maxOuterIters := 1 }) .silent () =
          { record with parameter := 0.5 } :: rest' := by
  obtain ⟨sol, hsol, -⟩ := exists_minimize_of_allowed one_pos
  have hhalf : (0.5 : ℝ) = 1.0 / 2 := by norm_num
  obtain ⟨hbegin, hmultipliers⟩ := (agrees_with_penalty line atOrigin #v[1] .silent ()).2
    { tolerance := 2, maxOuterIters := 1 }
    { initialPenalty := 0.5, tolerance := 2, maxOuterIters := 1 } hhalf rfl validate_eq_penalty
  have hsame := hmultipliers rfl rfl
  rw [hsol] at hsame
  obtain ⟨sol', hsol', hsame⟩ := Except.map_eq_ok_iff.mp hsame
  rcases hbegin with ⟨record, rest, rest', hshown, hshown'⟩ | ⟨e, -, -, herror, -⟩
  · exact ⟨sol, sol', record, rest, rest', hsol, hsol', hsame, hshown, hshown'⟩
  · cases hsol.symm.trans herror

end Example

end AugmentedLagrangian

end LocalOptimization.Constrained
