import Mathlib
import LocalOptimization.Box
import LocalOptimization.Proofs.OrderedScalar

/-!
# Projections onto boxes

The projection of a point lies in the box, unless an entry of the point is undefined and stays so.
Where nothing is rounded, it is the nearest point of the box: the way from it back to the point
makes no acute angle with the way to any other point of the box.
-/

namespace LocalOptimization.Box

section Clamp

variable {K : Type} [Scalar K] {lo hi : Option K} {a : K}

/-- The sides that a box may have in one coordinate: numbers in order. -/
structure Sides (lo hi : Option K) : Prop where
  lower : ∀ l, lo = some l → Scalar.isNaN l = false
  upper : ∀ h, hi = some h → Scalar.isNaN h = false
  ordered : ∀ l h, lo = some l → hi = some h → ¬ h < l

theorem sides_of_faultAt {i : Nat} (h : faultAt i lo hi = none) : Sides lo hi := by
  unfold faultAt at h
  split at h
  · cases h
  next hnumbers =>
    simp only [Bool.or_eq_true, not_or, Bool.not_eq_true, Option.any_eq_false] at hnumbers
    refine ⟨hnumbers.1, hnumbers.2, ?_⟩
    rintro l u rfl rfl hcrossed
    dsimp only at h
    rw [if_pos hcrossed] at h
    cases h

theorem Sides.clamp_cases (sides : Sides lo hi) :
    (clamp lo hi a = a ∧ (∀ l, lo = some l → ¬ a < l) ∧ ∀ h, hi = some h → ¬ h < a) ∨
      (∃ l, lo = some l ∧ a < l ∧ clamp lo hi a = l) ∨
      ∃ h, hi = some h ∧ h < a ∧ clamp lo hi a = h := by
  cases lo with
  | none =>
      cases hi with
      | none => simp [clamp]
      | some h => by_cases habove : h < a <;> simp [clamp, habove]
  | some l =>
      by_cases hbelow : a < l
      · refine .inr (.inl ⟨l, rfl, hbelow, ?_⟩)
        cases hi with
        | none => simp [clamp, hbelow]
        | some h => simp [clamp, hbelow, sides.ordered l h rfl rfl]
      · cases hi with
        | none => simp [clamp, hbelow]
        | some h => by_cases habove : h < a <;> simp [clamp, hbelow, habove]

theorem between_iff : between lo hi a = true ↔
    (∀ l, lo = some l → l ≤ a) ∧ ∀ h, hi = some h → a ≤ h := by
  simp only [between, Bool.and_eq_true, Option.all_eq_true, decide_eq_true_iff]

theorem Sides.isNaN_clamp (sides : Sides lo hi) (hnumber : Scalar.isNaN a = false) :
    Scalar.isNaN (clamp lo hi a) = false := by
  rcases sides.clamp_cases (a := a) with ⟨hclamp, -⟩ | ⟨l, hl, -, hclamp⟩ | ⟨h, hh, -, hclamp⟩
  · rwa [hclamp]
  · rw [hclamp]
    exact sides.lower l hl
  · rw [hclamp]
    exact sides.upper h hh

theorem Sides.between_clamp [OrderedScalar K] (sides : Sides lo hi)
    (hnumber : Scalar.isNaN (clamp lo hi a) = false) : between lo hi (clamp lo hi a) = true := by
  rw [between_iff]
  rcases sides.clamp_cases (a := a) with ⟨hclamp, hlower, hupper⟩ | ⟨l, hl, -, hclamp⟩ |
    ⟨h, hh, -, hclamp⟩ <;> rw [hclamp] at hnumber ⊢
  · exact ⟨fun l hl => OrderedScalar.le_of_not_lt (hlower l hl) (sides.lower l hl) hnumber,
      fun h hh => OrderedScalar.le_of_not_lt (hupper h hh) hnumber (sides.upper h hh)⟩
  · refine ⟨?_, fun h hh =>
      OrderedScalar.le_of_not_lt (sides.ordered l h hl hh) hnumber (sides.upper h hh)⟩
    intro l' hl'
    cases hl.symm.trans hl'
    exact OrderedScalar.le_refl_of_isNaN hnumber
  · refine ⟨fun l hl =>
      OrderedScalar.le_of_not_lt (sides.ordered l h hl hh) (sides.lower l hl) hnumber, ?_⟩
    intro h' hh'
    cases hh.symm.trans hh'
    exact OrderedScalar.le_refl_of_isNaN hnumber

end Clamp

section Membership

variable {K : Type} [Scalar K] {n : Nat} {b : Box K n} {x y : Vector K n}

theorem sides (b : Box K n) (i : Fin n) : Sides (b.lower.get i) (b.upper.get i) :=
  sides_of_faultAt (List.findSome?_eq_none_iff.mp b.faultless i (List.mem_finRange i))

theorem contains_iff :
    b.contains x = true ↔ ∀ i, between (b.lower.get i) (b.upper.get i) (x.get i) = true := by
  simp [contains]

theorem get_project (b : Box K n) (y : Vector K n) (i : Fin n) :
    (b.project y).get i = clamp (b.lower.get i) (b.upper.get i) (y.get i) := by
  simp [project, Vector.get_eq_getElem]

variable [OrderedScalar K]

theorem contains_project_of_isNaN (h : ∀ i, Scalar.isNaN ((b.project y).get i) = false) :
    b.contains (b.project y) = true := by
  rw [contains_iff]
  intro i
  have hnumber := h i
  rw [get_project] at hnumber ⊢
  exact (b.sides i).between_clamp hnumber

theorem contains_project_of_number (b : Box K n) (hy : ∀ i, Scalar.isNaN (y.get i) = false) :
    b.contains (b.project y) = true := by
  apply contains_project_of_isNaN
  intro i
  rw [get_project]
  exact (b.sides i).isNaN_clamp (hy i)

theorem contains_project_of_allFinite (b : Box K n) (hy : allFinite y = true) :
    b.contains (b.project y) = true :=
  b.contains_project_of_number fun i =>
    OrderedScalar.isNaN_of_isFinite (Vector.all_eq_true.mp hy i i.isLt)

end Membership

section Sides

variable {lo hi : Option ℝ} {a z : ℝ}

/-- Where there are two sides, the lower one is at most the upper one. -/
def InOrder (lo hi : Option ℝ) : Prop :=
  ∀ l h, lo = some l → hi = some h → l ≤ h

theorem InOrder.sides (ordered : InOrder lo hi) : Sides lo hi :=
  ⟨fun _ _ => rfl, fun _ _ => rfl, fun l h hl hh => not_lt.mpr (ordered l h hl hh)⟩

theorem sub_clamp_mul_le (ordered : InOrder lo hi) (hz : between lo hi z = true) :
    (a - clamp lo hi a) * (z - clamp lo hi a) ≤ 0 := by
  obtain ⟨hlower, hupper⟩ := between_iff.mp hz
  rcases ordered.sides.clamp_cases (a := a) with ⟨hclamp, -⟩ | ⟨l, hl, hbelow, hclamp⟩ |
    ⟨h, hh, habove, hclamp⟩ <;> rw [hclamp]
  · rw [sub_self, zero_mul]
  · exact mul_nonpos_of_nonpos_of_nonneg (by linarith) (sub_nonneg.mpr (hlower l hl))
  · exact mul_nonpos_of_nonneg_of_nonpos (by linarith) (sub_nonpos.mpr (hupper h hh))

end Sides

variable {n : Nat} {b : Box ℝ n} {x y z : Vector ℝ n}

theorem inOrder (b : Box ℝ n) (i : Fin n) : InOrder (b.lower.get i) (b.upper.get i) :=
  fun l h hl hh => not_lt.mp ((b.sides i).ordered l h hl hh)

theorem contains_project (b : Box ℝ n) (y : Vector ℝ n) : b.contains (b.project y) = true :=
  contains_project_of_isNaN fun _ => rfl

/-- The projection inequality. -/
theorem dot_sub_project_le (hz : b.contains z = true) :
    dot (y - b.project y) (z - b.project y) ≤ 0 := by
  rw [Exact.dot_eq_sum]
  apply Finset.sum_nonpos
  intro i _
  have hentry := sub_clamp_mul_le (a := y.get i) (b.inOrder i) (contains_iff.mp hz i)
  rw [← get_project] at hentry
  simpa only [Vector.get_eq_getElem, Vector.getElem_sub] using hentry

end LocalOptimization.Box
