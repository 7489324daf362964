import Mathlib
import LocalOptimization.Proofs.Elimination

/-!
# Elimination with replaced pivots

To replace a pivot is to change one entry of the matrix. What elimination returns in exact
arithmetic is therefore the solution of a nearby system, whose matrix differs in one entry for every
pivot that was replaced. It never divides by a number below the floor of the pivots.
-/

namespace LocalOptimization.Exact

variable {n : Nat}

section Pivot

theorem floor_le_abs_regularize (p : ℝ) : 1e-12 ≤ |regularize p| := by
  rw [regularize]
  split
  · have hfloor : |(pivotFloor : ℝ)| = 1e-12 := abs_of_pos (by norm_num [pivotFloor])
    rw [Scalar.withSignOf]
    split
    · rw [abs_neg, hfloor]
    · rw [hfloor]
  · next hregular => exact needsRegularizing_eq_false_iff.mp (Bool.eq_false_iff.mpr hregular)

theorem regularize_ne_zero (p : ℝ) : regularize p ≠ 0 :=
  abs_pos.mp (lt_of_lt_of_le (by norm_num) (floor_le_abs_regularize p))

theorem isNegative_iff (a : ℝ) : Scalar.isNegative a = true ↔ a < 0 :=
  @decide_eq_true_iff _ (Classical.dec (a < 0))

theorem abs_regularize_sub_le (p : ℝ) : |regularize p - p| ≤ 1e-12 := by
  rw [regularize]
  split
  · next hsmall =>
    have hlt : |p| < 1e-12 := of_decide_eq_true hsmall
    obtain ⟨hlower, hupper⟩ := abs_lt.mp hlt
    rw [Scalar.withSignOf, abs_le]
    change _ ≤ (if _ then -(1e-12 : ℝ) else 1e-12) - p ∧ (if _ then -(1e-12 : ℝ) else 1e-12) - p ≤ _
    split
    · next hnegative =>
      have hp := (isNegative_iff p).mp hnegative
      constructor <;> linarith
    · next hnegative =>
      have hp := not_lt.mp (mt (isNegative_iff p).mpr hnegative)
      constructor <;> linarith
  · norm_num

theorem regularize_sub_eq_zero_iff (p : ℝ) :
    regularize p - p = 0 ↔ needsRegularizing p = false := by
  rw [sub_eq_zero]
  constructor
  · intro h
    rw [needsRegularizing_eq_false_iff, ← h]
    exact floor_le_abs_regularize p
  · exact fun h => (regularize_of_regular h).1

end Pivot

section Bordered

/-- The matrix with a number in the corner, zeros beside and below it and a smaller matrix in the
rest. -/
def bordered (corner : ℝ) (d : Matrix ℝ n) : Matrix ℝ (n + 1) :=
  Vector.ofFn (Fin.cases (Vector.ofFn (Fin.cases corner fun _ => 0))
    fun i => Vector.ofFn (Fin.cases 0 (d.get i).get))

variable {corner : ℝ} {d : Matrix ℝ n} {a : Matrix ℝ (n + 1)} {b v : Vector ℝ (n + 1)}

theorem mulVec_eq_iff {m : Matrix ℝ n} {v b : Vector ℝ n} :
    mulVec m v = b ↔ ∀ i, dot (m.get i) v = b.get i := by
  constructor
  · rintro rfl i
    rw [Vector.get_eq_getElem, Vector.get_eq_getElem, getElem_mulVec]
  · intro h
    ext i hi
    rw [getElem_mulVec]
    exact h ⟨i, hi⟩

theorem dot_get_zero_add_bordered :
    dot ((a + bordered corner d).get 0) v =
      (first (first a) + corner) * first v + dot (rest (first a)) (rest v) := by
  have hrow : (a + bordered corner d).get 0 =
      first a + Vector.ofFn (Fin.cases corner fun _ => 0) := by
    simp [Vector.get_eq_getElem, first, bordered]
  have hrest : dot (rest (Vector.ofFn (Fin.cases corner fun _ => (0 : ℝ)))) (rest v) = 0 := by
    simp [dot_eq_sum, rest, Vector.get_eq_getElem]
  have hfirst : first (Vector.ofFn (Fin.cases corner fun _ : Fin n => (0 : ℝ))) = corner := by
    simp [first, Vector.get_eq_getElem]
  rw [hrow, add_dot, dot_succ, dot_succ (Vector.ofFn _), hrest, hfirst]
  ring

theorem dot_get_succ_add_bordered (i : Fin n) :
    dot ((a + bordered corner d).get i.succ) v =
      first (a.get i.succ) * first v + dot (rest (a.get i.succ)) (rest v) +
        dot (d.get i) (rest v) := by
  have hrow : (a + bordered corner d).get i.succ =
      a.get i.succ + Vector.ofFn (Fin.cases 0 (d.get i).get) := by
    simp [Vector.get_eq_getElem, bordered]
  have hrest : rest (Vector.ofFn (Fin.cases 0 (d.get i).get)) = d.get i := by
    ext j hj
    simp [rest, Vector.get_eq_getElem]
  have hfirst : first (Vector.ofFn (Fin.cases 0 (d.get i).get)) = 0 := by
    simp [first, Vector.get_eq_getElem]
  rw [hrow, add_dot, dot_succ, dot_succ (Vector.ofFn _), hrest, hfirst]
  ring

theorem dot_get_eliminate_add (i : Fin n) (w : Vector ℝ n) :
    dot ((eliminate a + d).get i) w = dot (rest (a.get i.succ)) w -
      first (a.get i.succ) / regularize (first (first a)) * dot (rest (first a)) w +
        dot (d.get i) w := by
  have hrow : (eliminate a + d).get i = rest (a.get i.succ) -
      (first (a.get i.succ) / regularize (first (first a))) * rest (first a) + d.get i := by
    simp [Vector.get_eq_getElem, eliminate]
  rw [hrow, add_dot, sub_dot, hmul_dot]

theorem eq_iff_first_rest {w : Vector ℝ (n + 1)} : v = w ↔ first v = first w ∧ rest v = rest w := by
  constructor
  · rintro rfl
    exact ⟨rfl, rfl⟩
  · rintro ⟨hfirst, hrest⟩
    ext i hi
    cases i with
    | zero => exact hfirst
    | succ i =>
        have hentry := congrArg (fun u => u.get ⟨i, Nat.lt_of_succ_lt_succ hi⟩) hrest
        simpa [rest, Vector.get_eq_getElem] using hentry

theorem eq_substitute_iff {x : Vector ℝ n} :
    v = substitute a b x ↔
      first v = (first b - dot (rest (first a)) x) / regularize (first (first a)) ∧ rest v = x := by
  have hfirst : first (substitute a b x) =
      (first b - dot (rest (first a)) x) / regularize (first (first a)) := by
    simp [substitute, first, Vector.get_eq_getElem]
  rw [eq_iff_first_rest, hfirst, rest_substitute]

/-- To change the corner to the pivot that elimination divides by, and the rest by `d`, changes the
smaller system by `d` only. -/
theorem mulVec_add_bordered_eq_iff
    (hcorner : first (first a) + corner = regularize (first (first a))) :
    mulVec (a + bordered corner d) v = b ↔
      mulVec (eliminate a + d) (rest v) = eliminateRhs a b ∧ v = substitute a b (rest v) := by
  have htop : regularize (first (first a)) * first v + dot (rest (first a)) (rest v) = b.get 0 ↔
      first v = (first b - dot (rest (first a)) (rest v)) / regularize (first (first a)) := by
    rw [eq_div_iff (regularize_ne_zero _), mul_comm, ← eq_sub_iff_add_eq]
    rfl
  have hrhs (i : Fin n) : (eliminateRhs a b).get i =
      b.get i.succ - first (a.get i.succ) / regularize (first (first a)) * first b := by
    simp [eliminateRhs, Vector.get_eq_getElem]
  simp only [mulVec_eq_iff, Fin.forall_fin_succ, dot_get_zero_add_bordered, hcorner,
    dot_get_succ_add_bordered, dot_get_eliminate_add, eq_substitute_iff, hrhs, and_true]
  rw [htop, and_comm, and_congr_left_iff]
  intro hfirst
  apply forall_congr'
  intro i
  rw [hfirst]
  constructor <;> intro h <;> linear_combination h

end Bordered

section Scattered

/-- The positions of the entries that are not zero. -/
noncomputable def support (d : Matrix ℝ n) : Finset (Fin n × Fin n) :=
  {p | (d.get p.1).get p.2 ≠ 0}

/-- The matrix has this many entries other than zero, all of them at most the floor of the pivots
and no two of them in one row or in one column. -/
structure Scattered (count : ℕ) (d : Matrix ℝ n) : Prop where
  card : (support d).card = count
  row : ∀ i j k, (d.get i).get j ≠ 0 → (d.get i).get k ≠ 0 → j = k
  column : ∀ i j k, (d.get i).get k ≠ 0 → (d.get j).get k ≠ 0 → i = j
  small : ∀ i j, |(d.get i).get j| ≤ 1e-12

variable {count : ℕ} {corner : ℝ} {d : Matrix ℝ n}

theorem card_support (d : Matrix ℝ n) :
    (support d).card = ∑ i, ∑ j, if (d.get i).get j ≠ 0 then 1 else 0 := by
  rw [support, Finset.card_filter, Fintype.sum_prod_type]

@[simp]
theorem get_bordered_zero_zero : ((bordered corner d).get 0).get 0 = corner := by
  simp [bordered, Vector.get_eq_getElem]

@[simp]
theorem get_bordered_zero_succ (j : Fin n) : ((bordered corner d).get 0).get j.succ = 0 := by
  simp [bordered, Vector.get_eq_getElem]

@[simp]
theorem get_bordered_succ_zero (i : Fin n) : ((bordered corner d).get i.succ).get 0 = 0 := by
  simp [bordered, Vector.get_eq_getElem]

@[simp]
theorem get_bordered_succ_succ (i j : Fin n) :
    ((bordered corner d).get i.succ).get j.succ = (d.get i).get j := by
  simp [bordered, Vector.get_eq_getElem]

theorem Scattered.bordered (scattered : Scattered count d) (hcorner : |corner| ≤ 1e-12) :
    Scattered (count + if corner ≠ 0 then 1 else 0) (bordered corner d) where
  card := by
    have hcount := scattered.card
    rw [card_support] at hcount ⊢
    simp only [Fin.sum_univ_succ, get_bordered_zero_zero, get_bordered_zero_succ,
      get_bordered_succ_zero, get_bordered_succ_succ, ne_eq, not_true_eq_false, if_false,
      Finset.sum_const_zero, add_zero, zero_add] at hcount ⊢
    rw [hcount, add_comm]
  row i j k hj hk := by
    cases i using Fin.cases <;> cases j using Fin.cases <;> cases k using Fin.cases <;>
      simp_all only [get_bordered_zero_succ, get_bordered_succ_zero, get_bordered_succ_succ,
        ne_eq, not_true_eq_false]
    exact congrArg Fin.succ (scattered.row _ _ _ hj hk)
  column i j k hi hj := by
    cases i using Fin.cases <;> cases j using Fin.cases <;> cases k using Fin.cases <;>
      simp_all only [get_bordered_zero_succ, get_bordered_succ_zero, get_bordered_succ_succ,
        ne_eq, not_true_eq_false]
    exact congrArg Fin.succ (scattered.column _ _ _ hi hj)
  small i j := by
    cases i using Fin.cases <;> cases j using Fin.cases
    · rwa [get_bordered_zero_zero]
    · norm_num
    · norm_num
    · rw [get_bordered_succ_succ]
      exact scattered.small _ _

theorem Scattered.raise {d : Matrix ℝ (n + 1)} (scattered : Scattered count d) (i : Fin (n + 1)) :
    Scattered count (raise d i) where
  card := by
    rw [card_support]
    simp only [get_raise]
    rw [Equiv.sum_comp (Equiv.swap 0 i) fun k => ∑ j, if (d.get k).get j ≠ 0 then 1 else 0,
      ← card_support, scattered.card]
  row k j l hj hl := by
    rw [get_raise] at hj hl
    exact scattered.row _ _ _ hj hl
  column k j l hk hj := by
    rw [get_raise] at hk hj
    exact (Equiv.swap 0 i).injective (scattered.column _ _ _ hk hj)
  small k j := by
    rw [get_raise]
    exact scattered.small _ _

end Scattered

theorem exists_scattered {n : ℕ} (a : Matrix ℝ n) (b : Vector ℝ n) :
    ∃ d, Scattered (solveLinear a b).regularized d ∧
      ∀ v, mulVec (a + d) v = b ↔ v = (solveLinear a b).x := by
  -- Along the recursion of elimination. The perturbation of the smaller system gets a border, and
  -- its rows are moved back to where the rows of the matrix come from.
  induction n with
  | zero =>
      refine ⟨#v[], ⟨rfl, ?_, ?_, ?_⟩, ?_⟩
      · exact fun i => i.elim0
      · exact fun i => i.elim0
      · exact fun i => i.elim0
      · intro v
        exact iff_of_true (Vector.ext fun i hi => absurd hi (Nat.not_lt_zero i))
          (Vector.ext fun i hi => absurd hi (Nat.not_lt_zero i))
  | succ n ih =>
      let top := topIndex a
      obtain ⟨d, scattered, solves⟩ :=
        ih (eliminate (raise a top)) (eliminateRhs (raise a top) (raise b top))
      let pivot := first (first (raise a top))
      let corrected := bordered (regularize pivot - pivot) d
      refine ⟨raise corrected top, ?_, ?_⟩
      · have hcount := (scattered.bordered (abs_regularize_sub_le pivot)).raise top
        simpa only [regularized_solveLinear, ne_eq, regularize_sub_eq_zero_iff,
          Bool.not_eq_false] using hcount
      · intro v
        have hmatrix : raise (a + raise corrected top) top = raise a top + corrected := by
          rw [raise_add, raise_raise]
        have hraised : mulVec (a + raise corrected top) v = b ↔
            mulVec (raise a top + corrected) v = raise b top := by
          rw [← hmatrix, mulVec_raise]
          exact ⟨fun h => by rw [h], raise_injective⟩
        rw [hraised, mulVec_add_bordered_eq_iff (add_sub_cancel _ _), solves, x_solveLinear]
        constructor
        · rintro ⟨hrest, hv⟩
          rwa [hrest] at hv
        · rintro rfl
          rw [rest_substitute]
          exact ⟨rfl, rfl⟩

section Division

/-- Exact numbers with another division. -/
@[reducible]
noncomputable def dividingBy (div : ℝ → ℝ → ℝ) : Scalar ℝ :=
  { instScalarReal with div }

/-- Elimination divides by nothing below the floor of the pivots: what a division makes of such
divisors does not matter. -/
theorem solveLinear_dividingBy {n : ℕ} {div : ℝ → ℝ → ℝ}
    (hdiv : ∀ u v, 1e-12 ≤ |v| → div u v = u / v) (a : Matrix ℝ n) (b : Vector ℝ n) :
    @solveLinear ℝ (dividingBy div) n a b = solveLinear a b := by
  have hpivot (u p : ℝ) : div u (regularize p) = u / regularize p :=
    hdiv u _ (floor_le_abs_regularize p)
  induction n with
  | zero => rfl
  | succ n ih =>
      have heliminate (a : Matrix ℝ (n + 1)) :
          @eliminate ℝ (dividingBy div) n a = eliminate a := by
        change (Vector.ofFn fun i : Fin n => rest (a.get i.succ) -
          div (first (a.get i.succ)) (regularize (first (first a))) * rest (first a)) = _
        simp only [hpivot]
        rfl
      have hrhs (a : Matrix ℝ (n + 1)) (b : Vector ℝ (n + 1)) :
          @eliminateRhs ℝ (dividingBy div) n a b = eliminateRhs a b := by
        change (Vector.ofFn fun i : Fin n => b.get i.succ -
          div (first (a.get i.succ)) (regularize (first (first a))) * first b) = _
        simp only [hpivot]
        rfl
      have hsubstitute (a : Matrix ℝ (n + 1)) (b : Vector ℝ (n + 1)) (x : Vector ℝ n) :
          @substitute ℝ (dividingBy div) n a b x = substitute a b x := by
        change Vector.ofFn (Fin.cases (div (first b - dot (rest (first a)) x)
          (regularize (first (first a)))) x.get) = _
        simp only [hpivot]
        rfl
      have hx := @x_solveLinear ℝ (dividingBy div) n a b
      have hregularized := @regularized_solveLinear ℝ (dividingBy div) n a b
      rw [heliminate, hrhs, ih] at hx hregularized
      rw [hsubstitute] at hx
      exact congrArg₂ LinearSolution.mk hx hregularized

end Division

section Nonsingular

def Nonsingular (m : Matrix ℝ n) : Prop :=
  Matrix.det (Matrix.of fun i j => (m.get i).get j) ≠ 0

theorem nonsingular_of_unique {m : Matrix ℝ n} {b x : Vector ℝ n}
    (unique : ∀ v, mulVec m v = b ↔ v = x) : Nonsingular m := by
  intro hdet
  obtain ⟨v, hv, hzero⟩ := Matrix.exists_mulVec_eq_zero_iff.mpr hdet
  apply hv
  have hkernel : mulVec m (x + Vector.ofFn v) = b := by
    rw [mulVec_add, (unique x).mpr rfl]
    ext i hi
    have hi := congrFun hzero ⟨i, hi⟩
    rw [Vector.getElem_add, getElem_mulVec, dot_eq_sum]
    simpa [Matrix.mulVec, dotProduct, Vector.get_eq_getElem] using hi
  have hsame := (unique _).mp hkernel
  funext i
  have hentry := congrArg (fun u => u.get i) hsame
  simpa [Vector.get_eq_getElem] using hentry

end Nonsingular

theorem Scattered.add_eq {a d : Matrix ℝ n} (scattered : Scattered 0 d) : a + d = a := by
  ext i hi j hj
  have hzero : (d.get ⟨i, hi⟩).get ⟨j, hj⟩ = 0 := by
    by_contra hne
    have hmem : (⟨i, hi⟩, ⟨j, hj⟩) ∈ support d := by simpa [support] using hne
    rw [Finset.card_eq_zero.mp scattered.card] at hmem
    exact absurd hmem (Finset.notMem_empty _)
  rw [Vector.getElem_add, Vector.getElem_add]
  exact add_eq_left.mpr hzero

theorem mulVec_eq_iff_of_isRegular {a : Matrix ℝ n} {b v : Vector ℝ n}
    (h : (solveLinear a b).isRegular = true) : mulVec a v = b ↔ v = (solveLinear a b).x := by
  obtain ⟨d, scattered, unique⟩ := exists_scattered a b
  rw [beq_iff_eq.mp h] at scattered
  rw [← unique, scattered.add_eq]

/-- The vector that elimination returns is the only solution of a nearby system with a nonsingular
matrix, which differs from the given one in one entry for every pivot that was replaced. No division
by a number below the floor of the pivots has a part in it. So elimination without a replaced pivot
solves the system itself, and with a singular matrix it replaces a pivot. -/
theorem solveLinear_solves_nearby (a : Matrix ℝ n) (b : Vector ℝ n) :
    (∃ d, Scattered (solveLinear a b).regularized d ∧ Nonsingular (a + d) ∧
      ∀ v, mulVec (a + d) v = b ↔ v = (solveLinear a b).x) ∧
    (∀ div : ℝ → ℝ → ℝ, (∀ u v, 1e-12 ≤ |v| → div u v = u / v) →
      @solveLinear ℝ (dividingBy div) n a b = solveLinear a b) ∧
    ((solveLinear a b).regularized = 0 →
      Nonsingular a ∧ mulVec a (solveLinear a b).x = b) ∧
    (¬ Nonsingular a → 1 ≤ (solveLinear a b).regularized) := by
  obtain ⟨d, scattered, unique⟩ := exists_scattered a b
  have nonsingular := nonsingular_of_unique unique
  have hexact (h : (solveLinear a b).regularized = 0) : a + d = a :=
    Scattered.add_eq (h ▸ scattered)
  refine ⟨⟨d, scattered, nonsingular, unique⟩, ?_, ?_, ?_⟩
  · intro div hdiv
    exact solveLinear_dividingBy hdiv a b
  · intro h
    rw [hexact h] at nonsingular unique
    exact ⟨nonsingular, (unique _).mpr rfl⟩
  · intro hsingular
    by_contra hnone
    rw [hexact (by omega)] at nonsingular
    exact hsingular nonsingular

section Example

/-- A singular matrix, with two equal rows. -/
def dependent : Matrix ℝ 2 :=
  .replicate 2 (.replicate 2 1)

theorem not_nonsingular_dependent : ¬ Nonsingular dependent := by
  norm_num [Nonsingular, Matrix.det_fin_two, dependent, Vector.get_eq_getElem]

theorem regularized_double : (solveLinear (#v[#v[2]] : Matrix ℝ 1) #v[6]).regularized = 0 := by
  apply beq_iff_eq.mp
  apply isRegular_of_topIndex (c := #v[]) (Fin.fin_one_eq_zero _)
  · rw [needsRegularizing_eq_false_iff]
    norm_num [first, Vector.get_eq_getElem]
  · rfl

theorem solveLinear_solves_nearby_dependent :
    (¬ Nonsingular dependent ∧ 1 ≤ (solveLinear dependent #v[1, 2]).regularized) ∧
    @solveLinear ℝ (dividingBy fun u v => if 1e-12 ≤ |v| then u / v else 0) 2 dependent #v[1, 2] =
      solveLinear dependent #v[1, 2] ∧
    (solveLinear (#v[#v[2]] : Matrix ℝ 1) #v[6]).regularized = 0 ∧
      mulVec #v[#v[2]] (solveLinear (#v[#v[2]] : Matrix ℝ 1) #v[6]).x = #v[6] := by
  obtain ⟨-, hdivision, -, hsingular⟩ := solveLinear_solves_nearby dependent #v[1, 2]
  obtain ⟨-, -, hregular, -⟩ := solveLinear_solves_nearby (#v[#v[2]] : Matrix ℝ 1) #v[6]
  exact ⟨⟨not_nonsingular_dependent, hsingular not_nonsingular_dependent⟩,
    hdivision _ fun u v hv => if_pos hv, regularized_double, (hregular regularized_double).2⟩

end Example

end LocalOptimization.Exact
