import Mathlib
import LocalOptimization.Linear.Solve
import LocalOptimization.Proofs.Exact

/-!
# Elimination is exact

Where no pivot is replaced and nothing is rounded, the vector that elimination returns solves the
system. Whether a pivot is replaced depends on the matrix alone.
-/

namespace LocalOptimization

section Step

variable {K : Type} [Scalar K] {n : Nat}

/-- The first entry. -/
def first {α : Type} (v : Vector α (n + 1)) : α :=
  v.get ⟨0, Nat.succ_pos n⟩

/-- The entries with the first one and the one at an index exchanged. -/
def raise {α : Type} (v : Vector α (n + 1)) : Fin (n + 1) → Vector α (n + 1)
  | ⟨i, hi⟩ => v.swap 0 i (Nat.succ_pos n) hi

/-- The index of the row that elimination moves to the top. -/
def topIndex (a : Matrix K (n + 1)) : Fin (n + 1) :=
  pivotIndex (a.map first)

/-- The rows below the top one, without the first unknown. -/
def eliminate (a : Matrix K (n + 1)) : Matrix K n :=
  Vector.ofFn fun i =>
    rest (a.get i.succ) - (first (a.get i.succ) / regularize (first (first a))) * rest (first a)

/-- The right-hand sides of the rows below the top one. -/
def eliminateRhs (a : Matrix K (n + 1)) (b : Vector K (n + 1)) : Vector K n :=
  Vector.ofFn fun i =>
    b.get i.succ - first (a.get i.succ) / regularize (first (first a)) * first b

/-- The first unknown from the top row, followed by the others. -/
def substitute (a : Matrix K (n + 1)) (b : Vector K (n + 1)) (x : Vector K n) :
    Vector K (n + 1) :=
  Vector.ofFn (Fin.cases ((first b - dot (rest (first a)) x) / regularize (first (first a))) x.get)

theorem x_solveLinear (a : Matrix K (n + 1)) (b : Vector K (n + 1)) :
    (solveLinear a b).x =
      substitute (raise a (topIndex a)) (raise b (topIndex a))
        (solveLinear (eliminate (raise a (topIndex a)))
          (eliminateRhs (raise a (topIndex a)) (raise b (topIndex a)))).x :=
  rfl

theorem regularized_solveLinear (a : Matrix K (n + 1)) (b : Vector K (n + 1)) :
    (solveLinear a b).regularized =
      (solveLinear (eliminate (raise a (topIndex a)))
          (eliminateRhs (raise a (topIndex a)) (raise b (topIndex a)))).regularized +
        if needsRegularizing (first (first (raise a (topIndex a)))) then 1 else 0 :=
  rfl

theorem first_raise {α : Type} (v : Vector α (n + 1)) (i : Fin (n + 1)) :
    first (raise v i) = v.get i :=
  Vector.getElem_swap_left _ _

theorem get_raise {α : Type} (v : Vector α (n + 1)) (i k : Fin (n + 1)) :
    (raise v i).get k = v.get (Equiv.swap 0 i k) := by
  rw [Vector.get_eq_getElem, raise, Vector.getElem_swap, Equiv.swap_apply_def]
  simp only [Fin.ext_iff, Fin.val_zero]
  split_ifs <;> rfl

theorem raise_raise {α : Type} (v : Vector α (n + 1)) (i : Fin (n + 1)) : raise (raise v i) i = v :=
  Vector.swap_swap (Nat.succ_pos n) i.isLt

theorem raise_injective {α : Type} {v w : Vector α (n + 1)} {i : Fin (n + 1)}
    (h : raise v i = raise w i) : v = w := by
  calc
    v = raise (raise v i) i := (raise_raise v i).symm
    _ = w := by rw [h, raise_raise]

theorem raise_add (a b : Matrix K (n + 1)) (i : Fin (n + 1)) :
    raise (a + b) i = raise a i + raise b i := by
  apply Vector.ext
  intro k hk
  have hrow (v : Matrix K (n + 1)) : (raise v i)[k] = v.get (Equiv.swap 0 i ⟨k, hk⟩) :=
    get_raise v i ⟨k, hk⟩
  simp only [Vector.getElem_add, hrow, Vector.get_eq_getElem]

theorem mulVec_raise (a : Matrix K (n + 1)) (x : Vector K (n + 1)) (i : Fin (n + 1)) :
    mulVec (raise a i) x = raise (mulVec a x) i := by
  ext k hk
  simp only [raise, getElem_mulVec, Vector.getElem_swap]
  split_ifs <;> rfl

theorem regularized_solveLinear_congr {n : Nat} (a : Matrix K n) (b b' : Vector K n) :
    (solveLinear a b).regularized = (solveLinear a b').regularized := by
  induction n with
  | zero => rfl
  | succ n ih =>
      rw [regularized_solveLinear, regularized_solveLinear, ih (eliminate (raise a (topIndex a)))]

theorem isRegular_solveLinear_congr {a : Matrix K n} {b : Vector K n} (b' : Vector K n)
    (h : (solveLinear a b).isRegular = true) : (solveLinear a b').isRegular = true := by
  rwa [LinearSolution.isRegular, regularized_solveLinear_congr a b' b]

theorem isRegular_solveLinear_iff (a : Matrix K (n + 1)) (b : Vector K (n + 1)) :
    (solveLinear a b).isRegular = true ↔
      needsRegularizing (first (a.get (topIndex a))) = false ∧
        (solveLinear (eliminate (raise a (topIndex a)))
          (eliminateRhs (raise a (topIndex a)) (raise b (topIndex a)))).isRegular = true := by
  simp only [LinearSolution.isRegular, regularized_solveLinear, beq_iff_eq, Nat.add_eq_zero_iff,
    first_raise]
  rw [and_comm]
  simp

theorem isRegular_of_topIndex {a : Matrix K (n + 1)} {b : Vector K (n + 1)} {c : Vector K n}
    {i : Fin (n + 1)} (htop : topIndex a = i)
    (hpivot : needsRegularizing (first (a.get i)) = false)
    (hbelow : (solveLinear (eliminate (raise a i)) c).isRegular = true) :
    (solveLinear a b).isRegular = true := by
  subst htop
  exact (isRegular_solveLinear_iff a b).mpr ⟨hpivot, isRegular_solveLinear_congr _ hbelow⟩

end Step

namespace Exact

variable {n : Nat}

theorem dot_succ (a b : Vector ℝ (n + 1)) :
    dot a b = first a * first b + dot (rest a) (rest b) := by
  simp [dot_eq_sum, Fin.sum_univ_succ, Vector.get_eq_getElem, first, rest]

theorem needsRegularizing_eq_false_iff {a : ℝ} : needsRegularizing a = false ↔ 1e-12 ≤ |a| := by
  rw [needsRegularizing, decide_eq_false_iff_not]
  exact not_lt

theorem regularize_of_regular {a : ℝ} (h : needsRegularizing a = false) :
    regularize a = a ∧ a ≠ 0 := by
  constructor
  · rw [regularize, if_neg (by simp [h])]
  · have hpos : 0 < |a| := lt_of_lt_of_le (by norm_num) (needsRegularizing_eq_false_iff.mp h)
    exact abs_pos.mp hpos

theorem rest_substitute (a : Matrix ℝ (n + 1)) (b : Vector ℝ (n + 1)) (x : Vector ℝ n) :
    rest (substitute a b x) = x := by
  ext i hi
  simp [rest, substitute, Vector.get_eq_getElem]

theorem dot_substitute (a : Matrix ℝ (n + 1)) (b v : Vector ℝ (n + 1)) (x : Vector ℝ n) :
    dot v (substitute a b x) =
      first v * ((first b - dot (rest (first a)) x) / regularize (first (first a))) +
        dot (rest v) x := by
  rw [dot_succ, rest_substitute]
  simp [substitute, first, Vector.get_eq_getElem]

theorem dot_rest_of_eliminate {a : Matrix ℝ (n + 1)} {b : Vector ℝ (n + 1)} {x : Vector ℝ n}
    (h : mulVec (eliminate a) x = eliminateRhs a b) (i : Fin n) :
    dot (rest (a.get i.succ)) x =
      b.get i.succ - first (a.get i.succ) / regularize (first (first a)) *
        (first b - dot (rest (first a)) x) := by
  have hrow : (mulVec (eliminate a) x)[i] = (eliminateRhs a b)[i] := by rw [h]
  simp only [Fin.getElem_fin, getElem_mulVec, eliminate, eliminateRhs, Vector.getElem_ofFn, sub_dot,
    hmul_dot] at hrow
  linear_combination hrow

theorem mulVec_substitute {a : Matrix ℝ (n + 1)} {b : Vector ℝ (n + 1)} {x : Vector ℝ n}
    (hpivot : needsRegularizing (first (first a)) = false)
    (h : mulVec (eliminate a) x = eliminateRhs a b) : mulVec a (substitute a b x) = b := by
  obtain ⟨hregularize, hne⟩ := regularize_of_regular hpivot
  have hrow (i : Fin (n + 1)) : dot (a.get i) (substitute a b x) = b.get i := by
    rw [dot_substitute, hregularize]
    cases i using Fin.cases with
    | zero =>
        change first (first a) * _ + dot (rest (first a)) x = first b
        rw [mul_div_cancel₀ _ hne]
        ring
    | succ i =>
        rw [dot_rest_of_eliminate h i, hregularize]
        ring
  ext i hi
  rw [getElem_mulVec]
  exact hrow ⟨i, hi⟩

theorem mulVec_solveLinear {n : Nat} {a : Matrix ℝ n} {b : Vector ℝ n}
    (h : (solveLinear a b).isRegular = true) : mulVec a (solveLinear a b).x = b := by
  induction n with
  | zero =>
      ext i hi
      exact absurd hi (Nat.not_lt_zero i)
  | succ n ih =>
      obtain ⟨hpivot, hbelow⟩ := (isRegular_solveLinear_iff a b).mp h
      rw [← first_raise a (topIndex a)] at hpivot
      apply raise_injective (i := topIndex a)
      rw [← mulVec_raise, x_solveLinear]
      exact mulVec_substitute hpivot (ih hbelow)

theorem isRegular_two {a : Matrix ℝ 2} {b : Vector ℝ 2}
    (htop : |(a.get 1).get 0| < |(a.get 0).get 0|) (hpivot : (1e-12 : ℝ) ≤ |(a.get 0).get 0|)
    (hnext : (1e-12 : ℝ) ≤
      |(a.get 1).get 1 - (a.get 1).get 0 / (a.get 0).get 0 * (a.get 0).get 1|) :
    (solveLinear a b).isRegular = true := by
  have hindex : topIndex a = 0 := by
    have hle : Scalar.magnitudeLE a[0][0] a[1][0] = false := by
      rw [Scalar.magnitudeLE, isNaN, Bool.false_or, decide_eq_false_iff_not]
      exact not_le.mpr htop
    simp [topIndex, first, pivotIndex, List.finRange_succ, hle, Vector.get_eq_getElem]
  have hkept : regularize a[0][0] = a[0][0] :=
    (regularize_of_regular (needsRegularizing_eq_false_iff.mpr hpivot)).1
  apply isRegular_of_topIndex (c := zeros) hindex
  · exact needsRegularizing_eq_false_iff.mpr hpivot
  · apply isRegular_of_topIndex (c := zeros) (Fin.fin_one_eq_zero _)
    · rw [needsRegularizing_eq_false_iff]
      simpa [first, raise, eliminate, rest, hkept, Vector.get_eq_getElem] using hnext
    · rfl

theorem mulVec_add_eq_zeros {a : Matrix ℝ n} {b x d : Vector ℝ n}
    (h : mulVec a d = -(mulVec a x + b)) : mulVec a (x + d) + b = zeros := by
  rw [mulVec_add, h]
  ext i hi
  simp only [Vector.getElem_add, Vector.getElem_neg, getElem_zeros, zero_eq]
  ring

end Exact

end LocalOptimization
