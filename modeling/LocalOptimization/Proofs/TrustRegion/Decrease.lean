import Mathlib
import LocalOptimization.Proofs.TrustRegion.Length

/-!
# What a step gains

Where the curvature of the model is bounded, the Cauchy point achieves a decrease that depends only
on the length of the gradient and the radius. Conjugate gradients take the Cauchy point first, and
the iterations after it do not lose what it gained.
-/

namespace LocalOptimization.TrustRegion

variable {n : Nat} {m : Model ℝ n} {radius beta : ℝ}

namespace Model

theorem predictedReduction_add_hmul (h : Exact.IsSymmetric m.hessian) (z d : Vector ℝ n) (t : ℝ) :
    m.predictedReduction (z + t * d) =
      m.predictedReduction z - t * dot (m.gradient + mulVec m.hessian z) d
        - t * t / 2 * quadraticForm m.hessian d := by
  rw [predictedReduction, predictedReduction, Exact.half_eq, Exact.quadraticForm_add h,
    Exact.quadraticForm_hmul, Exact.mulVec_hmul, Exact.dot_hmul, Exact.dot_mulVec_comm h z d,
    Exact.dot_comm d, Exact.add_dot, Exact.dot_add, Exact.dot_hmul]
  ring

theorem predictedReduction_zeros : m.predictedReduction zeros = 0 := by
  rw [predictedReduction, Exact.quadraticForm_zeros, Exact.dot_zeros, mul_zero, neg_zero, sub_zero]

/-- The decrease that steepest descent achieves at least, where the curvature is at most `beta`. -/
noncomputable def sufficientDecrease (m : Model ℝ n) (radius beta : ℝ) : ℝ :=
  0.5 * norm m.gradient * min radius (norm m.gradient / beta)

def CurvesAtMost (m : Model ℝ n) (beta : ℝ) : Prop :=
  ∀ v, quadraticForm m.hessian v ≤ beta * dot v v

theorem sufficientDecrease_le {t : ℝ} (hgradient : 0 < norm m.gradient)
    (ht : min (radius / norm m.gradient) (1 / beta) ≤ t) :
    m.sufficientDecrease radius beta ≤ t / 2 * dot m.gradient m.gradient := by
  have hscale : norm m.gradient * min (radius / norm m.gradient) (1 / beta) =
      min radius (norm m.gradient / beta) := by
    rw [mul_min_of_nonneg _ _ (le_of_lt hgradient), mul_div_cancel₀ _ (ne_of_gt hgradient),
      mul_one_div]
  calc
    m.sufficientDecrease radius beta
        = norm m.gradient * norm m.gradient / 2
            * min (radius / norm m.gradient) (1 / beta) := by
          rw [sufficientDecrease, ← hscale, Exact.half_eq]
          ring
    _ ≤ norm m.gradient * norm m.gradient / 2 * t :=
          mul_le_mul_of_nonneg_left ht (by positivity)
    _ = t / 2 * dot m.gradient m.gradient := by
          rw [Exact.norm_mul_norm]
          ring

end Model

namespace ConjugateGradient

section Iteration

variable {K : Type} [Scalar K]

def initial (m : Model K n) : ConjugateGradient K n where
  z := zeros
  r := m.gradient
  d := -m.gradient

/-- The next state, where the model curves upwards. -/
def next (h : Matrix K n) (s : ConjugateGradient K n) : ConjugateGradient K n :=
  let rr := dot s.r s.r
  let alpha := rr / quadraticForm h s.d
  let r := s.r + alpha * mulVec h s.d
  { z := s.z + alpha * s.d, r, d := -r + (dot r r / rr) * s.d }

theorem iterate_succ (h : Matrix K n) (radius tolerance : K) (budget : Nat)
    (s : ConjugateGradient K n) :
    iterate h radius tolerance (budget + 1) s =
      if 0.0 < quadraticForm h s.d then
        if radius ≤ norm (next h s).z then toBoundary s.z s.d radius
        else if norm (next h s).r < tolerance then { p := (next h s).z, onBoundary := false }
        else iterate h radius tolerance budget (next h s)
      else toBoundary s.z s.d radius :=
  rfl

theorem direction_next (h : Matrix K n) (s : ConjugateGradient K n) :
    (next h s).d = -(next h s).r + (dot (next h s).r (next h s).r / dot s.r s.r) * s.d :=
  rfl

end Iteration

/-- The residual is the gradient of the model, and the direction descends as fast as it is steep. -/
structure Sound (m : Model ℝ n) (s : ConjugateGradient ℝ n) : Prop where
  residual : s.r = m.gradient + mulVec m.hessian s.z
  slope : dot s.r s.d = -dot s.r s.r

theorem sound_initial (m : Model ℝ n) : (initial m).Sound m := by
  constructor
  · ext i hi
    simp only [initial, Exact.mulVec_zeros, Vector.getElem_add, getElem_zeros, Exact.zero_eq,
      add_zero]
  · rw [initial, Exact.dot_neg]

theorem initial_add_hmul (m : Model ℝ n) (t : ℝ) :
    (initial m).z + t * (initial m).d = -(t * m.gradient) := by
  ext i hi
  simp only [initial, Vector.getElem_add, Vector.getElem_hmul, Vector.getElem_neg, getElem_zeros,
    Exact.zero_eq, zero_add, mul_neg]

theorem norm_initial_add_hmul (m : Model ℝ n) {t : ℝ} (ht : 0 ≤ t) :
    norm ((initial m).z + t * (initial m).d) = t * norm m.gradient := by
  rw [initial_add_hmul, Exact.norm_neg, Exact.norm_hmul ht]

theorem quadraticForm_initial (m : Model ℝ n) :
    quadraticForm m.hessian (initial m).d = quadraticForm m.hessian m.gradient :=
  Exact.quadraticForm_neg _ _

theorem dot_initial (m : Model ℝ n) :
    dot (initial m).d (initial m).d = dot m.gradient m.gradient := by
  rw [initial, Exact.dot_neg, Exact.neg_dot, neg_neg]

variable {s : ConjugateGradient ℝ n}

theorem Sound.dot_residual_next_direction (sound : s.Sound m)
    (hcurvature : 0 < quadraticForm m.hessian s.d) : dot (next m.hessian s).r s.d = 0 := by
  rw [ConjugateGradient.next, Exact.add_dot, Exact.hmul_dot, sound.slope,
    Exact.dot_comm (mulVec _ _), ← quadraticForm, div_mul_cancel₀ _ (ne_of_gt hcurvature),
    neg_add_cancel]

theorem Sound.next (sound : s.Sound m) (hcurvature : 0 < quadraticForm m.hessian s.d) :
    (next m.hessian s).Sound m := by
  constructor
  · simp only [ConjugateGradient.next, Exact.mulVec_add, Exact.mulVec_hmul, sound.residual]
    ext i hi
    simp only [Vector.getElem_add, add_assoc]
  · rw [direction_next, Exact.dot_add, Exact.dot_neg, Exact.dot_hmul,
      sound.dot_residual_next_direction hcurvature, mul_zero, add_zero]

theorem Sound.gain {t : ℝ} (sound : s.Sound m) (symmetric : Exact.IsSymmetric m.hessian)
    (ht : 0 ≤ t) (hcurvature : t * quadraticForm m.hessian s.d ≤ dot s.r s.r) :
    m.predictedReduction s.z + t / 2 * dot s.r s.r ≤ m.predictedReduction (s.z + t * s.d) := by
  rw [m.predictedReduction_add_hmul symmetric, ← sound.residual, sound.slope]
  have hgain := mul_le_mul_of_nonneg_left hcurvature ht
  linarith

/-- How far an iteration goes along its direction: as far as the model falls, or to the boundary. -/
structure Length (m : Model ℝ n) (radius : ℝ) (s : ConjugateGradient ℝ n) (t : ℝ) : Prop where
  nonneg : 0 ≤ t
  curvature : t * quadraticForm m.hessian s.d ≤ dot s.r s.r
  reaches : norm (s.z + t * s.d) = radius ∨ dot s.d s.d = 0 ∨
    0 < quadraticForm m.hessian s.d ∧ t = dot s.r s.r / quadraticForm m.hessian s.d

theorem length_next (h : 0 < quadraticForm m.hessian s.d) :
    Length m radius s (dot s.r s.r / quadraticForm m.hessian s.d) where
  nonneg := div_nonneg (Exact.dot_self_nonneg _) (le_of_lt h)
  curvature := le_of_eq (div_mul_cancel₀ _ (ne_of_gt h))
  reaches := .inr (.inr ⟨h, rfl⟩)

theorem length_boundary (hs : norm s.z < radius)
    (houtside : 0 < quadraticForm m.hessian s.d → radius ≤ norm (next m.hessian s).z) :
    Length m radius s (boundaryTau s.z s.d radius) := by
  have hradius : 0 ≤ radius := (Exact.norm_nonneg s.z).trans (le_of_lt hs)
  have hresidual := Exact.dot_self_nonneg s.r
  rcases (Exact.dot_self_nonneg s.d).eq_or_lt with hzero | hpos
  · rw [boundaryTau_of_dot_self_eq_zero hzero.symm]
    exact ⟨le_refl 0, by rwa [zero_mul], .inr (.inl hzero.symm)⟩
  · obtain ⟨hnonneg, hroot⟩ := boundaryTau_spec (le_of_lt hs) hradius hpos
    refine ⟨hnonneg, ?_, .inl hroot⟩
    by_cases hcurvature : 0 < quadraticForm m.hessian s.d
    · have halpha : 0 ≤ dot s.r s.r / quadraticForm m.hessian s.d :=
        div_nonneg hresidual (le_of_lt hcurvature)
      have htau := boundaryTau_le hs hpos halpha (houtside hcurvature)
      exact (le_div_iff₀ hcurvature).mp htau
    · exact (mul_nonpos_of_nonneg_of_nonpos hnonneg (not_lt.mp hcurvature)).trans hresidual

theorem exists_iteration (tolerance : ℝ) (budget : Nat) (hs : norm s.z < radius) :
    ∃ t, Length m radius s t ∧
      ((iterate m.hessian radius tolerance (budget + 1) s).p = s.z + t * s.d ∨
        0 < quadraticForm m.hessian s.d ∧ (next m.hessian s).z = s.z + t * s.d ∧
          norm (next m.hessian s).z < radius ∧
          iterate m.hessian radius tolerance (budget + 1) s =
            iterate m.hessian radius tolerance budget (next m.hessian s)) := by
  rw [iterate_succ, Exact.zero_eq]
  split
  · next hcurvature =>
      split
      · next houtside => exact ⟨_, length_boundary hs fun _ => houtside, .inl rfl⟩
      · next hinside =>
          refine ⟨_, length_next hcurvature, ?_⟩
          split
          · exact .inl rfl
          · exact .inr ⟨hcurvature, rfl, not_le.mp hinside, rfl⟩
  · next hcurvature =>
      exact ⟨_, length_boundary hs fun h => absurd h hcurvature, .inl rfl⟩

theorem le_iterate (symmetric : Exact.IsSymmetric m.hessian) (tolerance : ℝ) (budget : Nat)
    (sound : s.Sound m) (hs : norm s.z < radius) :
    m.predictedReduction s.z ≤
      m.predictedReduction (iterate m.hessian radius tolerance budget s).p := by
  induction budget generalizing s with
  | zero => exact le_refl _
  | succ budget ih =>
      obtain ⟨t, length, hend | ⟨hcurvature, hz, hinside, hrest⟩⟩ :=
        exists_iteration (m := m) tolerance budget hs
      all_goals
        have hgain := sound.gain symmetric length.nonneg length.curvature
        have hnonneg : 0 ≤ t / 2 * dot s.r s.r :=
          mul_nonneg (by linarith [length.nonneg]) (Exact.dot_self_nonneg _)
      · rw [hend]
        linarith
      · have hle := ih (sound.next hcurvature) hinside
        rw [hz] at hle
        rw [hrest]
        linarith

theorem Length.sufficientDecrease_le {t : ℝ} (length : Length m radius (initial m) t)
    (symmetric : Exact.IsSymmetric m.hessian) (curves : m.CurvesAtMost beta) (hbeta : 0 < beta)
    (hgradient : 0 < norm m.gradient) :
    m.sufficientDecrease radius beta ≤
      m.predictedReduction ((initial m).z + t * (initial m).d) := by
  have hself : 0 < dot m.gradient m.gradient := Exact.norm_mul_norm m.gradient ▸ by positivity
  have hmin : min (radius / norm m.gradient) (1 / beta) ≤ t := by
    rcases length.reaches with hboundary | hzero | ⟨hcurvature, ht⟩
    · rw [← hboundary, norm_initial_add_hmul m length.nonneg,
        mul_div_cancel_right₀ _ (ne_of_gt hgradient)]
      exact min_le_left _ _
    · exact absurd (dot_initial m ▸ hzero) (ne_of_gt hself)
    · have hcurves := curves (initial m).d
      rw [dot_initial] at hcurves
      refine (min_le_right _ _).trans ?_
      rw [ht, div_le_div_iff₀ hbeta hcurvature, one_mul, mul_comm]
      exact hcurves
  have hgain := (sound_initial m).gain symmetric length.nonneg length.curvature
  have hzero : m.predictedReduction (initial m).z = 0 := m.predictedReduction_zeros
  rw [hzero, zero_add] at hgain
  exact (m.sufficientDecrease_le hgradient hmin).trans hgain

end ConjugateGradient

open ConjugateGradient

theorem cauchyFraction_cases (hradius : 0 < radius) :
    cauchyFraction m radius = 1 ∧
        radius * quadraticForm m.hessian m.gradient ≤
          norm m.gradient * norm m.gradient * norm m.gradient ∨
      0 < quadraticForm m.hessian m.gradient ∧
        cauchyFraction m radius = norm m.gradient * norm m.gradient * norm m.gradient /
          (radius * quadraticForm m.hessian m.gradient) := by
  have hnorm := Exact.norm_nonneg m.gradient
  rw [cauchyFraction, Exact.zero_eq, Exact.one_eq]
  split
  · next hcurvature =>
      have hproduct := mul_pos hradius hcurvature
      rw [Exact.min_eq]
      rcases le_total 1 (norm m.gradient * norm m.gradient * norm m.gradient /
        (radius * quadraticForm m.hessian m.gradient)) with hcut | hinside
      · exact .inl ⟨min_eq_right hcut, (one_le_div₀ hproduct).mp hcut⟩
      · exact .inr ⟨hcurvature, min_eq_left hinside⟩
  · next hcurvature =>
      refine .inl ⟨rfl, ?_⟩
      have hproduct := mul_nonpos_of_nonneg_of_nonpos (le_of_lt hradius) (not_lt.mp hcurvature)
      exact hproduct.trans (by positivity)

theorem exists_length_cauchyPoint (hfree : m.isStuck radius = false) :
    ∃ t, Length m radius (initial m) t ∧
      (cauchyPoint m radius).p = (initial m).z + t * (initial m).d := by
  obtain ⟨hgradient, hradius⟩ := Model.isStuck_eq_false_iff.mp hfree
  have hself : dot (initial m).r (initial m).r = norm m.gradient * norm m.gradient :=
    (Exact.norm_mul_norm m.gradient).symm
  have hfraction := cauchyFraction_nonneg (m := m) (le_of_lt hradius)
  have hpoint := cauchyPoint_eq hfree
  rw [← initial_add_hmul] at hpoint
  refine ⟨_, ⟨by positivity, ?_, ?_⟩, hpoint⟩
  all_goals
    rw [quadraticForm_initial, hself]
    rcases cauchyFraction_cases (m := m) hradius with ⟨hone, hcut⟩ | ⟨hpos, hinside⟩
  · rw [hone, one_mul, div_mul_eq_mul_div, div_le_iff₀ hgradient]
    exact hcut
  · rw [hinside]
    apply le_of_eq
    field_simp
  · left
    rw [norm_initial_add_hmul m (by positivity), hone, one_mul,
      div_mul_cancel₀ _ (ne_of_gt hgradient)]
  · refine .inr (.inr ⟨hpos, ?_⟩)
    rw [hinside]
    field_simp

theorem sufficientDecrease_le_cauchyPoint (symmetric : Exact.IsSymmetric m.hessian)
    (curves : m.CurvesAtMost beta) (hbeta : 0 < beta) (hfree : m.isStuck radius = false) :
    m.sufficientDecrease radius beta ≤ m.predictedReduction (cauchyPoint m radius).p := by
  obtain ⟨t, length, hp⟩ := exists_length_cauchyPoint hfree
  rw [hp]
  exact length.sufficientDecrease_le symmetric curves hbeta (Model.isStuck_eq_false_iff.mp hfree).1

theorem steihaugCg_eq (hfree : m.isStuck radius = false) :
    steihaugCg m radius =
      iterate m.hessian radius (steihaugTolerance m.gradient) n (initial m) :=
  if_neg (by simp [hfree])

theorem exists_length_le_steihaugCg (symmetric : Exact.IsSymmetric m.hessian)
    (hfree : m.isStuck radius = false) :
    ∃ t, Length m radius (initial m) t ∧
      m.predictedReduction ((initial m).z + t * (initial m).d) ≤
        m.predictedReduction (steihaugCg m radius).p := by
  obtain ⟨hgradient, hradius⟩ := Model.isStuck_eq_false_iff.mp hfree
  have hstart : norm (initial m).z < radius := norm_zero.trans_lt hradius
  rw [steihaugCg_eq hfree]
  cases n with
  | zero =>
      have hzero : norm m.gradient = 0 := Exact.norm_eq_zero (by simp)
      exact absurd hzero (ne_of_gt hgradient)
  | succ n =>
      obtain ⟨t, length, hend | ⟨hcurvature, hz, hinside, hrest⟩⟩ :=
        exists_iteration (m := m) (steihaugTolerance m.gradient) n hstart
      · exact ⟨t, length, le_of_eq (by rw [hend])⟩
      · have hle := le_iterate symmetric (steihaugTolerance m.gradient) n
          ((sound_initial m).next hcurvature) hinside
        rw [hz] at hle
        exact ⟨t, length, by rwa [hrest]⟩

theorem sufficientDecrease_le_steihaugCg (symmetric : Exact.IsSymmetric m.hessian)
    (curves : m.CurvesAtMost beta) (hbeta : 0 < beta) (hfree : m.isStuck radius = false) :
    m.sufficientDecrease radius beta ≤ m.predictedReduction (steihaugCg m radius).p := by
  obtain ⟨t, length, hle⟩ := exists_length_le_steihaugCg symmetric hfree
  exact (length.sufficientDecrease_le symmetric curves hbeta
    (Model.isStuck_eq_false_iff.mp hfree).1).trans hle

end LocalOptimization.TrustRegion
