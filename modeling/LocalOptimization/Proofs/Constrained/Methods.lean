import Mathlib
import LocalOptimization.Constrained.AugmentedLagrangian
import LocalOptimization.Constrained.Barrier
import LocalOptimization.Constrained.Penalty
import LocalOptimization.Proofs.Constrained.Reduction

/-!
# Reductions behind their checks

Each method checks its parameters, and the barrier method its start, and then runs its reduction.
-/

namespace LocalOptimization.Constrained

variable {K : Type} [Scalar K] {n : Nat} {ε σ : Type}

section Checks

theorem checkTolerance_eq_ok_iff {tolerance : K} :
    checkTolerance tolerance = .ok () ↔ Scalar.isPositive tolerance = true := by
  rw [checkTolerance]
  split <;> simp_all

theorem checkOuterIters_eq_ok_iff {maxOuterIters : Nat} :
    checkOuterIters maxOuterIters = .ok () ↔ 0 < maxOuterIters := by
  rw [checkOuterIters]
  split
  · simp_all
  · simp only [true_iff]
    omega

theorem checkSchedule_eq_ok_iff {initial growth : K} {greatest : Option K} :
    checkSchedule initial growth greatest = .ok () ↔
      Scalar.isPositive initial = true ∧ (Scalar.isFinite growth = true ∧ 1.0 < growth) ∧
        ∀ g, greatest = some g → Scalar.isFinite g = true ∧ initial ≤ g := by
  rw [checkSchedule]
  cases Scalar.isPositive initial with
  | false => simp
  | true =>
      cases Scalar.isFinite growth with
      | false => simp
      | true =>
          by_cases hgrowth : 1.0 < growth
          · cases greatest <;> simp [hgrowth]
          · simp [hgrowth]

structure Accepted (initial growth : K) (greatest : Option K) (tolerance : K)
    (maxOuterIters : Nat) (inner : QuasiNewton.Config K) : Prop where
  initialPositive : Scalar.isPositive initial = true
  growthAboveOne : Scalar.isFinite growth = true ∧ 1.0 < growth
  greatestAboveInitial : ∀ g, greatest = some g → Scalar.isFinite g = true ∧ initial ≤ g
  tolerancePositive : Scalar.isPositive tolerance = true
  allowed : 0 < maxOuterIters
  innerValid : inner.validate = .ok ()

theorem accepted_iff {initial growth : K} {greatest : Option K} {tolerance : K}
    {maxOuterIters : Nat} {inner : QuasiNewton.Config K} :
    (do
      checkSchedule initial growth greatest
      checkTolerance tolerance
      checkOuterIters maxOuterIters
      inner.validate.mapError .inner) = .ok () ↔
      Accepted initial growth greatest tolerance maxOuterIters inner := by
  constructor
  · intro h
    obtain ⟨⟨⟩, hschedule, h⟩ := Except.bind_eq_ok_iff.mp h
    obtain ⟨⟨⟩, htolerance, h⟩ := Except.bind_eq_ok_iff.mp h
    obtain ⟨⟨⟩, hallowed, hinner⟩ := Except.bind_eq_ok_iff.mp h
    obtain ⟨hinitial, hgrowth, hgreatest⟩ := checkSchedule_eq_ok_iff.mp hschedule
    exact ⟨hinitial, hgrowth, hgreatest, checkTolerance_eq_ok_iff.mp htolerance,
      checkOuterIters_eq_ok_iff.mp hallowed, Except.mapError_eq_ok_iff.mp hinner⟩
  · rintro ⟨hinitial, hgrowth, hgreatest, htolerance, hallowed, hinner⟩
    rw [checkSchedule_eq_ok_iff.mpr ⟨hinitial, hgrowth, hgreatest⟩,
      checkTolerance_eq_ok_iff.mpr htolerance, checkOuterIters_eq_ok_iff.mpr hallowed, hinner]
    rfl

end Checks

variable {f : Objective K n ε} {c : ConstraintSet K n} {x : Vector K n}
variable {o : Observer σ (Record K n)} {w : σ} {sol : Solution K n}

structure Multipliers.Fits (m : Multipliers K) (c : ConstraintSet K n) : Prop where
  equality : m.equality.length = c.equalities.length
  inequality : m.inequality.length = c.inequalities.length

namespace Penalty

variable {config : Config K}

def Config.Valid (config : Config K) : Prop :=
  Accepted config.initialPenalty config.growth (some config.maxPenalty) config.tolerance
    config.maxOuterIters config.inner

theorem Config.validate_eq_ok_iff : config.validate = .ok () ↔ config.Valid :=
  accepted_iff

theorem minimize_of_valid (valid : config.Valid) :
    minimize f c x config o w =
      (reduction f c config).minimize f x config.maxOuterIters config.historyLimit o w := by
  rw [minimize, Config.validate_eq_ok_iff.mpr valid]

theorem valid_of_minimize (h : (minimize f c x config o w).1 = .ok sol) : config.Valid := by
  apply Config.validate_eq_ok_iff.mp
  cases hvalid : config.validate with
  | error e =>
      rw [minimize, hvalid] at h
      cases h
  | ok => rfl

end Penalty

namespace AugmentedLagrangian

variable {config : Config K}

def Config.Valid (config : Config K) : Prop :=
  Accepted config.initialRho config.growth (some config.maxRho) config.tolerance
    config.maxOuterIters config.inner

theorem Config.validate_eq_ok_iff : config.validate = .ok () ↔ config.Valid :=
  accepted_iff

theorem minimize_of_valid (valid : config.Valid) :
    minimize f c x config o w =
      (reduction f c config).minimize f x config.maxOuterIters config.historyLimit o w := by
  rw [minimize, Config.validate_eq_ok_iff.mpr valid]

theorem valid_of_minimize (h : (minimize f c x config o w).1 = .ok sol) : config.Valid := by
  apply Config.validate_eq_ok_iff.mp
  cases hvalid : config.validate with
  | error e =>
      rw [minimize, hvalid] at h
      cases h
  | ok => rfl

theorem fits_initialMultipliers : (initialMultipliers c).Fits c := by
  constructor <;> simp [initialMultipliers]

theorem fits_updateMultipliers {m : Multipliers K} (fits : m.Fits c) (rho : K) (x : Vector K n) :
    (updateMultipliers c rho x m).Fits c := by
  constructor
  · simp [updateMultipliers, fits.equality]
  · simp [updateMultipliers, fits.inequality]

theorem fits_of_start {s : Reduction.State K n} (h : (reduction f c config).start f x = .ok s) :
    s.multipliers.Fits c := by
  obtain ⟨-, objective, -, -, rfl⟩ := Reduction.start_eq_ok_iff.mp h
  exact fits_initialMultipliers

theorem fits_of_advances {i : Nat} {s t : Reduction.State K n} {inner : QuasiNewton.Solution K n}
    (fits : s.multipliers.Fits c) (advances : (reduction f c config).Advances f i s t inner) :
    t.multipliers.Fits c := by
  rw [advances.multipliers]
  exact fits_updateMultipliers fits _ _

theorem exists_lastIteration (h : (minimize f c x config o w).1 = .ok sol) :
    ∃ s inner, s.multipliers.Fits c ∧ (reduction f c config).LastIteration f x s inner sol := by
  have valid := valid_of_minimize h
  rw [minimize_of_valid valid] at h
  apply Reduction.exists_lastIteration h valid.allowed
  · intro first hstart
    exact fits_of_start hstart
  · intro i s t inner fits advances
    exact fits_of_advances fits advances

end AugmentedLagrangian

namespace Barrier

variable {config : Config K}

def Config.Valid (config : Config K) : Prop :=
  Accepted config.initialT config.growth none config.tolerance config.maxOuterIters config.inner

theorem Config.validate_eq_ok_iff : config.validate = .ok () ↔ config.Valid :=
  accepted_iff

theorem checkStart_eq_ok_iff :
    (checkStart c x : Except (Error K ε) Unit) = .ok () ↔
      c.equalities = [] ∧ c.interior x = true := by
  rw [checkStart, ← ConstraintSet.firstNotStrictlyFeasible_eq_none_iff]
  cases c.equalities with
  | nil => cases c.firstNotStrictlyFeasible x <;> simp
  | cons h hs => simp

theorem interior_of_isFiniteAt {t v : K} (h : (surrogate f c t).isFiniteAt x v = true) :
    c.interior x = true :=
  (Bool.and_eq_true_iff.mp (Bool.and_eq_true_iff.mp h).1).1

theorem minimize_of_valid (valid : config.Valid) (equalities : c.equalities = [])
    (interior : c.interior x = true) :
    minimize f c x config o w =
      (reduction f c config).minimize f x config.maxOuterIters config.historyLimit o w := by
  rw [minimize, Config.validate_eq_ok_iff.mpr valid, Except.mapError]
  dsimp only [bind, Except.bind]
  rw [checkStart_eq_ok_iff.mpr ⟨equalities, interior⟩]

theorem check_eq_ok_iff :
    (config.validate.mapError .invalidConfig >>= fun () => checkStart c x :
      Except (Error K ε) Unit) = .ok () ↔
      config.Valid ∧ c.equalities = [] ∧ c.interior x = true := by
  rw [Except.bind_eq_ok_iff, ← Config.validate_eq_ok_iff, ← checkStart_eq_ok_iff (ε := ε)]
  constructor
  · rintro ⟨⟨⟩, hvalid, hstart⟩
    exact ⟨Except.mapError_eq_ok_iff.mp hvalid, hstart⟩
  · rintro ⟨hvalid, hstart⟩
    exact ⟨(), Except.mapError_eq_ok_iff.mpr hvalid, hstart⟩

theorem valid_of_minimize (h : (minimize f c x config o w).1 = .ok sol) :
    config.Valid ∧ c.equalities = [] ∧ c.interior x = true := by
  rw [minimize] at h
  split at h
  next => cases h
  next hcheck => exact check_eq_ok_iff.mp hcheck

end Barrier

end LocalOptimization.Constrained
