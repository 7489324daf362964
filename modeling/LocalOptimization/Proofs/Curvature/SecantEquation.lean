import Mathlib
import LocalOptimization.Curvature.Secant
import LocalOptimization.Proofs.Curvature.Descent

/-!
# Secant equations

A model that takes in a step `s` with the change `y` of the gradient, or of the residuals, along it
agrees with the pair from then on: a Hessian or a Jacobian maps `s` to `y`, an inverse Hessian maps
`y` to `s`. The rule by which a model skips pairs keeps it from dividing by zero.
-/

namespace LocalOptimization

section Offers

variable {M V : Type}

/-- The model after a pair that it takes in or skips. -/
def offer (update? : M → V → V → Option M) (m : M) (p : V × V) : M :=
  (update? m p.1 p.2).getD m

/-- What a model does with the pair `s` and `y`: under this condition it skips the pair and stays as
it is, otherwise it takes the pair in and then satisfies the secant equation. -/
structure SecantLaw (update? : M → V → V → Option M) (skips : Prop) (equation : M → Prop) (m : M)
    (s y : V) : Prop where
  skipped_iff : update? m s y = none ↔ skips
  unchanged : skips → offer update? m (s, y) = m
  applied : ¬ skips → equation (offer update? m (s, y))

theorem SecantLaw.of_update {update? : M → V → V → Option M} {skips : Prop} {equation : M → Prop}
    {m : M} {s y : V} (hskips : update? m s y = none ↔ skips)
    (hequation : ∀ m', update? m s y = some m' → equation m') :
    SecantLaw update? skips equation m s y := by
  refine ⟨hskips, ?_, ?_⟩
  · intro h
    rw [offer, hskips.mpr h, Option.getD_none]
  · intro h
    obtain ⟨m', hm'⟩ := Option.ne_none_iff_exists'.mp (mt hskips.mp h)
    rw [offer, hm', Option.getD_some]
    exact hequation m' hm'

theorem foldl_offer_induction {update? : M → V → V → Option M} {P : M → Prop} {m : M} (hm : P m)
    (step : ∀ m s y m', P m → update? m s y = some m' → P m') (pairs : List (V × V)) :
    P (pairs.foldl (offer update?) m) := by
  induction pairs generalizing m with
  | nil => exact hm
  | cons p pairs ih =>
      apply ih
      rw [offer]
      cases hupdate : update? m p.1 p.2 with
      | none => exact hm
      | some m' => exact step _ _ _ _ hm hupdate

end Offers

section Field

variable {K : Type} [Field K] [LinearOrder K] {n : Nat}

attribute [local instance] Exact.arithmetic

namespace Lbfgs

variable {m m' : Lbfgs K n} {s y : Vector K n}

theorem memory_update (h : m.update? s y = some m') : m'.memory = m.memory := by
  rw [update?] at h
  split at h <;> cases h
  rfl

theorem update_eq_none_iff : m.update? s y = none ↔ dot y s ≤ 1e-10 ∨ m.memory = 0 := by
  rw [update?]
  split
  next h => exact iff_of_false (Option.some_ne_none _) (not_or.mpr ⟨not_le.mpr h.1, h.2⟩)
  next h =>
    refine iff_of_true rfl ?_
    rw [not_and_or, not_not] at h
    exact h.imp_left not_lt.mp

variable [IsStrictOrderedRing K]

theorem applyInverse_zeros (gamma : K) (corrections : List (Correction K n)) :
    applyInverse gamma corrections zeros = zeros := by
  have hzero : (0.0 : K) = 0 := by norm_num
  induction corrections with
  | nil =>
      ext i hi
      simp [applyInverse, hzero]
  | cons c older ih =>
      have hrest : (zeros : Vector K n) - (c.rho * dot c.s zeros) * c.y = zeros := by
        ext i hi
        simp [Exact.dot_zeros, hzero]
      rw [applyInverse, hrest, ih]
      ext i hi
      simp [Exact.dot_zeros, hzero]

theorem applyInverse_cons_self {gamma : K} {c : Correction K n} (curved : c.Curved)
    (older : List (Correction K n)) : applyInverse gamma (c :: older) c.y = c.s := by
  have hzero : (0.0 : K) = 0 := by norm_num
  have halpha : c.rho * dot c.s c.y = 1 := by
    rw [curved.rho_eq, Exact.dot_comm c.s]
    have hpos := curved.pos.ne'
    field_simp
    norm_num
  have hrest : c.y - (c.rho * dot c.s c.y) * c.y = zeros := by
    ext i hi
    simp [halpha, hzero]
  rw [applyInverse, hrest, applyInverse_zeros]
  ext i hi
  simp [Exact.dot_zeros, halpha, hzero]

theorem direction_of_update (h : m.update? s y = some m') : m'.direction y = -s := by
  rw [update?] at h
  split at h
  next hcurved =>
    cases h
    obtain ⟨kept, hkept⟩ := Nat.exists_eq_succ_of_ne_zero hcurved.2
    let newest : Correction K n := { s, y, rho := 1.0 / dot y s }
    have curved : newest.Curved := ⟨minCurvature_pos.trans hcurved.1, rfl⟩
    rw [direction, hkept, List.take_succ_cons]
    exact congrArg (-·) (applyInverse_cons_self curved _)
  next => cases h

end Lbfgs

namespace DavidonFletcherPowell

variable {m m' : DavidonFletcherPowell K n} {s y : Vector K n}

theorem update_eq_none_iff :
    m.update? s y = none ↔ dot y s ≤ 1e-10 ∨ quadraticForm m.inverseHessian y ≤ 1e-10 := by
  rw [update?]
  split
  next h => exact iff_of_false (Option.some_ne_none _) (not_or.mpr ⟨not_le.mpr h.1, not_le.mpr h.2⟩)
  next h =>
    refine iff_of_true rfl ?_
    rw [not_and_or] at h
    exact h.imp not_lt.mp not_lt.mp

variable [IsStrictOrderedRing K]

theorem mulVec_updated {h : Matrix K n} (hy : quadraticForm h y ≠ 0) (hys : dot y s ≠ 0) :
    mulVec (updated h s y) y = s := by
  have hself : dot (mulVec h y) y = quadraticForm h y := Exact.dot_comm _ _
  have hone : (1.0 : K) = 1 := by norm_num
  rw [updated, Exact.add_mulVec, Exact.add_mulVec, Exact.hmul_mulVec, Exact.hmul_mulVec,
    Exact.outer_mulVec, Exact.outer_mulVec, hself, Exact.dot_comm s]
  ext i hi
  simp only [Vector.getElem_add, Vector.getElem_hmul, hone]
  field_simp
  ring

theorem mulVec_of_update (h : m.update? s y = some m') : mulVec m'.inverseHessian y = s := by
  rw [update?] at h
  split at h
  next hcurved =>
    cases h
    exact mulVec_updated (Lbfgs.minCurvature_pos.trans hcurved.2).ne'
      (Lbfgs.minCurvature_pos.trans hcurved.1).ne'
  next => cases h

end DavidonFletcherPowell

end Field

variable {n : Nat}

namespace Exact

theorem eq_zeros_of_norm_eq_zero {v : Vector ℝ n} (h : norm v = 0) : v = zeros := by
  by_contra hv
  exact (norm_pos hv).ne' h

end Exact

namespace SymmetricRankOne

variable {m m' : SymmetricRankOne ℝ n} {s y : Vector ℝ n}

/-- Where the threshold vanishes, so does the denominator: the separate test for it decides nothing
in exact arithmetic. -/
theorem dot_eq_zero_of_threshold {r : Vector ℝ n} (h : skipRatio * norm r * norm s = 0) :
    dot r s = 0 := by
  have hratio : (skipRatio : ℝ) ≠ 0 := by norm_num [skipRatio]
  rcases mul_eq_zero.mp h with hr | hs
  · rw [Exact.eq_zeros_of_norm_eq_zero ((mul_eq_zero.mp hr).resolve_left hratio), Exact.zeros_dot]
  · rw [Exact.eq_zeros_of_norm_eq_zero hs, Exact.dot_zeros]

theorem refuses_iff {r : Vector ℝ n} :
    (Scalar.isNaN (dot r s) || decide (Scalar.abs (dot r s) ≤ skipRatio * norm r * norm s) ||
      Scalar.isZero (skipRatio * norm r * norm s)) = true ↔
        |dot r s| ≤ skipRatio * norm r * norm s := by
  rw [Exact.isNaN, Bool.false_or, Bool.or_eq_true, decide_eq_true_iff]
  refine or_iff_left_of_imp ?_
  intro hzero
  have hthreshold : skipRatio * norm r * norm s = 0 := by
    rw [Scalar.isZero, Bool.and_eq_true, decide_eq_true_iff, decide_eq_true_iff,
      Exact.zero_eq] at hzero
    exact le_antisymm hzero.1 hzero.2
  change |dot r s| ≤ _
  rw [dot_eq_zero_of_threshold hthreshold, hthreshold, abs_zero]

theorem update_eq_none_iff :
    m.update? s y = none ↔ |dot (y - mulVec m.hessian s) s| ≤
      1e-8 * norm (y - mulVec m.hessian s) * norm s := by
  rw [update?, ite_eq_left_iff]
  simp only [reduceCtorEq, imp_false, not_not]
  exact refuses_iff

theorem mulVec_of_update (h : m.update? s y = some m') : mulVec m'.hessian s = y := by
  have hlarge := mt update_eq_none_iff.mpr (by rw [h]; exact Option.some_ne_none _)
  rw [update?] at h
  split at h <;> cases h
  have hrs : dot (y - mulVec m.hessian s) s ≠ 0 := by
    intro hzero
    rw [hzero, abs_zero] at hlarge
    have hratio : (0 : ℝ) ≤ 1e-8 := by norm_num
    exact hlarge (mul_nonneg (mul_nonneg hratio (Exact.norm_nonneg _)) (Exact.norm_nonneg _))
  rw [Exact.add_mulVec, Exact.hmul_mulVec, Exact.outer_mulVec]
  ext i hi
  simp only [Vector.getElem_add, Vector.getElem_hmul, Exact.one_eq]
  rw [← mul_assoc, one_div_mul_cancel hrs]
  simp

theorem isSymmetric_of_update (symmetric : Exact.IsSymmetric m.hessian)
    (h : m.update? s y = some m') : Exact.IsSymmetric m'.hessian := by
  rw [update?] at h
  split at h <;> cases h
  exact symmetric.add ((Exact.isSymmetric_outer _).hmul _)

end SymmetricRankOne

namespace Secant

variable {m m' : Secant ℝ n} {s y : Vector ℝ n}

theorem update_eq_none_iff : m.update? s y = none ↔ dot s s ≤ 1e-24 := by
  rw [update?]
  split
  next h => exact iff_of_false (Option.some_ne_none _) (not_le.mpr h)
  next h => exact iff_of_true rfl (not_lt.mp h)

theorem mulVec_of_update (h : m.update? s y = some m') : mulVec m'.jacobian s = y := by
  rw [update?] at h
  split at h
  next hlong =>
    cases h
    have hss : dot s s ≠ 0 := (lt_trans (by norm_num [minStepSquared]) hlong).ne'
    rw [Exact.add_mulVec, Exact.hmul_mulVec, Exact.outer_mulVec]
    ext i hi
    simp only [Vector.getElem_add, Vector.getElem_hmul, Vector.getElem_sub, Exact.one_eq]
    field_simp
    ring
  next => cases h

end Secant

/-- The four models after any offers. A pair that a model skips, by its rule, leaves it as it is.
After a pair that is taken in, the models of the Hessian and of the Jacobian map `s` to `y`, those
of the inverse Hessian map `y` to `s`, and the matrices of the symmetric models are symmetric. -/
theorem secant_laws (memory : ℕ) (jacobian : Matrix ℝ n)
    (pairs : List (Vector ℝ n × Vector ℝ n)) (s y : Vector ℝ n) :
    (let m := pairs.foldl (offer Lbfgs.update?) (.empty memory)
     SecantLaw Lbfgs.update? (dot y s ≤ 1e-10 ∨ memory = 0) (fun m' => m'.direction y = -s)
       m s y) ∧
    (let m := pairs.foldl (offer SymmetricRankOne.update?) .initial
     Exact.IsSymmetric m.hessian ∧
       SecantLaw SymmetricRankOne.update?
         (|dot (y - mulVec m.hessian s) s| ≤ 1e-8 * norm (y - mulVec m.hessian s) * norm s)
         (fun m' => mulVec m'.hessian s = y) m s y) ∧
    (let m := pairs.foldl (offer DavidonFletcherPowell.update?) .initial
     Exact.IsSymmetric m.inverseHessian ∧
       SecantLaw DavidonFletcherPowell.update?
         (dot y s ≤ 1e-10 ∨ dot y (mulVec m.inverseHessian y) ≤ 1e-10)
         (fun m' => mulVec m'.inverseHessian y = s) m s y) ∧
    (let m := pairs.foldl (offer Secant.update?) { jacobian }
     SecantLaw Secant.update? (dot s s ≤ 1e-24) (fun m' => mulVec m'.jacobian s = y) m s y) := by
  have lbfgs : (pairs.foldl (offer Lbfgs.update?) (.empty memory)).memory = memory := by
    refine foldl_offer_induction (P := fun m : Lbfgs ℝ n => m.memory = memory) rfl ?_ pairs
    intro m s y m' hm h
    exact (Lbfgs.memory_update h).trans hm
  have rankOne : Exact.IsSymmetric
      (pairs.foldl (offer SymmetricRankOne.update?) (.initial : SymmetricRankOne ℝ n)).hessian :=
    foldl_offer_induction (P := fun m => Exact.IsSymmetric m.hessian) Exact.isSymmetric_identity
      (fun _ _ _ _ symmetric h => SymmetricRankOne.isSymmetric_of_update symmetric h) pairs
  have rankTwo : DavidonFletcherPowell.Sound
      (pairs.foldl (offer DavidonFletcherPowell.update?) .initial) :=
    foldl_offer_induction DavidonFletcherPowell.sound_initial
      (fun _ _ _ _ sound h => DavidonFletcherPowell.Sound.update sound h) pairs
  refine ⟨?_, ⟨rankOne, ?_⟩, ⟨rankTwo.symmetric, ?_⟩, ?_⟩
  · exact .of_update (by rw [Lbfgs.update_eq_none_iff, lbfgs]) fun _ => Lbfgs.direction_of_update
  · exact .of_update SymmetricRankOne.update_eq_none_iff fun _ => SymmetricRankOne.mulVec_of_update
  · exact .of_update DavidonFletcherPowell.update_eq_none_iff
      fun _ => DavidonFletcherPowell.mulVec_of_update
  · exact .of_update Secant.update_eq_none_iff fun _ => Secant.mulVec_of_update

end LocalOptimization
