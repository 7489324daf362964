import LocalOptimization.Proofs.Double.Rounding
import LocalOptimization.Proofs.Exact

/-!
# Order that survives rounding

What doubles and exact numbers have in common of order and signs. A method that only compares
numbers, and only takes signs from quotients and differences, keeps the same laws on both.
-/

namespace LocalOptimization

/-- Laws of order that hold of exact numbers and that rounding does not break. -/
class OrderedScalar (K : Type) [Scalar K] : Prop where
  lt_irrefl (a : K) : ¬ a < a
  le_of_lt {a b : K} : a < b → a ≤ b
  le_trans {a b c : K} : a ≤ b → b ≤ c → a ≤ c
  lt_of_le_of_lt {a b c : K} : a ≤ b → b < c → a < c
  lt_of_lt_of_le {a b c : K} : a < b → b ≤ c → a < c
  le_of_not_lt {a b : K} : ¬ b < a → Scalar.isNaN a = false → Scalar.isNaN b = false → a ≤ b
  isNaN_of_isFinite {a : K} : Scalar.isFinite a = true → Scalar.isNaN a = false
  not_pos_neg_infinity : ¬ (0.0 : K) < -Scalar.infinity
  pos_of_div_pos {a b : K} : 0.0 < a / b → ¬ b ≤ 0.0 → 0.0 < a ∧ 0.0 < b
  lt_of_sub_pos {a b : K} : 0.0 < a - b → b < a
  nonneg_double {a : K} : 0.0 ≤ a → 0.0 ≤ 2.0 * a
  nonneg_quarter {a : K} : 0.0 ≤ a → 0.0 ≤ a * 0.25
  quarter_le {a : K} : 0.0 ≤ a → a * 0.25 ≤ a

namespace OrderedScalar

variable {K : Type} [Scalar K] [OrderedScalar K] {a b : K}

theorem not_lt_of_le (h : a ≤ b) : ¬ b < a :=
  fun hlt => lt_irrefl a (lt_of_le_of_lt h hlt)

theorem le_refl_of_isNaN (h : Scalar.isNaN a = false) : a ≤ a :=
  le_of_not_lt (lt_irrefl a) h h

theorem le_of_not_le (h : ¬ b ≤ a) (ha : Scalar.isNaN a = false) (hb : Scalar.isNaN b = false) :
    a ≤ b :=
  le_of_not_lt (fun hlt => h (le_of_lt hlt)) ha hb

theorem lt_of_not_le (h : ¬ b ≤ a) (hb : Scalar.isNaN b = false) (ha : Scalar.isNaN a = false) :
    a < b :=
  Classical.not_not.mp fun hlt => h (le_of_not_lt hlt hb ha)

end OrderedScalar

theorem Double.isNaN_of_isFinite {a : Float} (h : a.isFinite = true) : a.isNaN = false := by
  have hunpack : a.toModel.unpack.isFinite = true := h
  change a.toModel.unpack.isNaN = false
  cases ha : a.toModel.unpack <;> rw [ha] at hunpack <;> cases hunpack <;> rfl

instance instOrderedScalarFloat : OrderedScalar Float where
  lt_irrefl a h := lt_irrefl _ ((Double.lt_iff a a).mp h).2.2
  le_of_lt h := by
    rw [Double.lt_iff] at h
    exact (Double.le_iff _ _).mpr ⟨h.1, h.2.1, le_of_lt h.2.2⟩
  le_trans hab hbc := by
    rw [Double.le_iff] at hab hbc
    exact (Double.le_iff _ _).mpr ⟨hab.1, hbc.2.1, le_trans hab.2.2 hbc.2.2⟩
  lt_of_le_of_lt hab hbc := by
    rw [Double.le_iff] at hab
    rw [Double.lt_iff] at hbc
    exact (Double.lt_iff _ _).mpr ⟨hab.1, hbc.2.1, lt_of_le_of_lt hab.2.2 hbc.2.2⟩
  lt_of_lt_of_le hab hbc := by
    rw [Double.lt_iff] at hab
    rw [Double.le_iff] at hbc
    exact (Double.lt_iff _ _).mpr ⟨hab.1, hbc.2.1, lt_of_lt_of_le hab.2.2 hbc.2.2⟩
  le_of_not_lt h ha hb := by
    rw [Double.lt_iff] at h
    refine (Double.le_iff _ _).mpr ⟨ha, hb, le_of_not_gt ?_⟩
    intro hlt
    exact h ⟨hb, ha, hlt⟩
  isNaN_of_isFinite := Double.isNaN_of_isFinite
  not_pos_neg_infinity := by decide
  pos_of_div_pos := Double.pos_of_div_pos
  lt_of_sub_pos := Double.lt_of_sub_pos
  nonneg_double := Double.nonneg_double
  nonneg_quarter := Double.nonneg_quarter
  quarter_le := Double.mul_quarter_le

instance instOrderedScalarReal : OrderedScalar ℝ where
  lt_irrefl := lt_irrefl
  le_of_lt := le_of_lt
  le_trans := le_trans
  lt_of_le_of_lt := lt_of_le_of_lt
  lt_of_lt_of_le := lt_of_lt_of_le
  le_of_not_lt h _ _ := not_lt.mp h
  isNaN_of_isFinite _ := rfl
  not_pos_neg_infinity := by
    rw [Exact.zero_eq]
    exact fun h => lt_irrefl (0 : ℝ) (h.trans_eq neg_zero)
  pos_of_div_pos h hb := by
    rw [Exact.zero_eq] at *
    exact ⟨(div_pos_iff_of_pos_right (not_le.mp hb)).mp h, not_le.mp hb⟩
  lt_of_sub_pos h := by
    rw [Exact.zero_eq] at h
    exact sub_pos.mp h
  nonneg_double h := by
    rw [Exact.zero_eq] at *
    exact mul_nonneg (by norm_num) h
  nonneg_quarter h := by
    rw [Exact.zero_eq] at *
    exact mul_nonneg h (by norm_num)
  quarter_le h := by
    rw [Exact.zero_eq] at h
    exact mul_le_of_le_one_right h (by norm_num)

end LocalOptimization
