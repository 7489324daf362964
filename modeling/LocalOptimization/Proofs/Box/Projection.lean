import Mathlib
import LocalOptimization.Proofs.Box

/-!
# The laws of projections

Two vectors of sides bound a box where the sides are numbers and in order, and of several faults the
first is reported. A projection leaves exactly the points of the box where they are, of doubles as
well as of exact numbers. Where nothing is rounded, it is the nearest point of the box, and no two
projections are farther apart than the points.
-/

namespace LocalOptimization.Box

section Faults

variable {K : Type} [Scalar K] {lo hi : Option K} {i : Nat} {fault : Fault K}

/-- The sides are numbers, and the lower one is at most the upper one. -/
structure Ordered (lo hi : Option K) : Prop where
  lower : ∀ l, lo = some l → Scalar.isNaN l = false
  upper : ∀ h, hi = some h → Scalar.isNaN h = false
  le : ∀ l h, lo = some l → hi = some h → l ≤ h

/-- What is wrong with the sides of coordinate `i`: one of them is undefined, or both are numbers
and the lower one exceeds the upper one. -/
inductive Blames (i : Nat) (lo hi : Option K) : Fault K → Prop where
  | lower {l : K} (hl : lo = some l) (undefined : Scalar.isNaN l = true) :
      Blames i lo hi (.notANumber i)
  | upper {h : K} (hh : hi = some h) (undefined : Scalar.isNaN h = true) :
      Blames i lo hi (.notANumber i)
  | crossed {l h : K} (hl : lo = some l) (hh : hi = some h) (lowerNumber : Scalar.isNaN l = false)
      (upperNumber : Scalar.isNaN h = false) (lt : h < l) : Blames i lo hi (.crossed i l h)

theorem faultAt_eq_some_iff : faultAt i lo hi = some fault ↔ Blames i lo hi fault := by
  constructor
  · intro h
    unfold faultAt at h
    split at h
    next hundefined =>
      cases h
      rcases Bool.or_eq_true_iff.mp hundefined with hlower | hupper
      · obtain ⟨l, hl, hnan⟩ := (Option.any_eq_true ..).mp hlower
        exact .lower hl hnan
      · obtain ⟨u, hu, hnan⟩ := (Option.any_eq_true ..).mp hupper
        exact .upper hu hnan
    next hnumbers =>
      simp only [Bool.or_eq_true, not_or, Bool.not_eq_true, Option.any_eq_false] at hnumbers
      split at h
      next l u =>
        split at h
        next hlt =>
          cases h
          exact .crossed rfl rfl (hnumbers.1 l rfl) (hnumbers.2 u rfl) hlt
        next => cases h
      next => cases h
  · rintro (⟨rfl, hnan⟩ | ⟨rfl, hnan⟩ | ⟨rfl, rfl, hl, hh, hlt⟩)
    · simp [faultAt, hnan]
    · simp [faultAt, hnan]
    · simp [faultAt, hl, hh, hlt]

theorem faultAt_eq_none_iff : faultAt i lo hi = none ↔ Sides lo hi := by
  refine ⟨sides_of_faultAt, fun sides => ?_⟩
  rw [Option.eq_none_iff_forall_ne_some]
  intro fault hfault
  cases faultAt_eq_some_iff.mp hfault with
  | lower hl undefined => exact absurd (sides.lower _ hl) (by simp [undefined])
  | upper hh undefined => exact absurd (sides.upper _ hh) (by simp [undefined])
  | crossed hl hh _ _ hlt => exact sides.ordered _ _ hl hh hlt

theorem sides_iff_ordered [OrderedScalar K] : Sides lo hi ↔ Ordered lo hi := by
  constructor
  · intro sides
    refine ⟨sides.lower, sides.upper, fun l h hl hh => ?_⟩
    exact OrderedScalar.le_of_not_lt (sides.ordered l h hl hh) (sides.lower l hl)
      (sides.upper h hh)
  · intro ordered
    refine ⟨ordered.lower, ordered.upper, fun l h hl hh hlt => ?_⟩
    exact OrderedScalar.lt_irrefl l (OrderedScalar.lt_of_le_of_lt (ordered.le l h hl hh) hlt)

end Faults

section OfSides

variable {n : Nat}

theorem findSome?_finRange_eq_some_iff {α : Type} {f : Fin n → Option α} {a : α} :
    (List.finRange n).findSome? f = some a ↔ ∃ i, (∀ j < i, f j = none) ∧ f i = some a := by
  rw [List.findSome?_eq_some_iff]
  have hsorted := List.pairwise_lt_finRange n
  constructor
  · rintro ⟨before, i, after, hsplit, hi, hbefore⟩
    refine ⟨i, fun j hj => ?_, hi⟩
    rw [hsplit, List.pairwise_append] at hsorted
    have hmem := List.mem_finRange j
    rw [hsplit, List.mem_append, List.mem_cons] at hmem
    rcases hmem with hmem | rfl | hmem
    · exact hbefore j hmem
    · exact absurd hj (lt_irrefl j)
    · exact absurd hj (lt_asymm ((List.pairwise_cons.mp hsorted.2.1).1 j hmem))
  · rintro ⟨i, hbefore, hi⟩
    obtain ⟨before, after, hsplit⟩ := List.append_of_mem (List.mem_finRange i)
    refine ⟨before, i, after, hsplit, hi, fun j hj => hbefore j ?_⟩
    rw [hsplit, List.pairwise_append] at hsorted
    exact hsorted.2.2 j hj i List.mem_cons_self

variable {K : Type} [Scalar K] {lower upper : Vector (Option K) n} {b : Box K n} {fault : Fault K}

theorem exists_ofSides_eq_ok_iff :
    (∃ b, ofSides lower upper = .ok b) ↔ ∀ i, Sides (lower.get i) (upper.get i) := by
  have hfaultless : (∀ i, Sides (lower.get i) (upper.get i)) ↔ firstFault? lower upper = none := by
    simp [firstFault?, List.findSome?_eq_none_iff, faultAt_eq_none_iff]
  rw [hfaultless]
  constructor
  · rintro ⟨b, hb⟩
    rw [Option.eq_none_iff_forall_ne_some]
    intro fault hfault
    rw [(ofSides_eq_error_iff lower upper fault).mpr hfault] at hb
    cases hb
  · intro h
    cases hb : ofSides lower upper with
    | ok b => exact ⟨b, rfl⟩
    | error fault =>
        rw [(ofSides_eq_error_iff lower upper fault).mp hb] at h
        cases h

theorem lower_upper_of_ofSides (h : ofSides lower upper = .ok b) :
    b.lower = lower ∧ b.upper = upper := by
  unfold ofSides at h
  split at h
  · cases h
  · cases h
    exact ⟨rfl, rfl⟩

theorem ofSides_eq_error_iff_blames :
    ofSides lower upper = .error fault ↔
      ∃ i : Fin n, (∀ j < i, Sides (lower.get j) (upper.get j)) ∧
        Blames i (lower.get i) (upper.get i) fault := by
  rw [ofSides_eq_error_iff, firstFault?, findSome?_finRange_eq_some_iff]
  simp only [faultAt_eq_none_iff, faultAt_eq_some_iff]

end OfSides

section Fixed

variable {K : Type} [Scalar K] [OrderedScalar K] {n : Nat} {lo hi : Option K} {a : K}
  {b : Box K n} {x : Vector K n}

theorem Sides.clamp_of_between (sides : Sides lo hi) (h : between lo hi a = true) :
    clamp lo hi a = a := by
  obtain ⟨hlower, hupper⟩ := between_iff.mp h
  rcases sides.clamp_cases (a := a) with ⟨hclamp, -⟩ | ⟨l, hl, hlt, -⟩ | ⟨u, hu, hlt, -⟩
  · exact hclamp
  · exact absurd hlt (OrderedScalar.not_lt_of_le (hlower l hl))
  · exact absurd hlt (OrderedScalar.not_lt_of_le (hupper u hu))

theorem project_of_contains (h : b.contains x = true) : b.project x = x := by
  ext i hi
  have hclamp := (b.sides ⟨i, hi⟩).clamp_of_between (contains_iff.mp h ⟨i, hi⟩)
  rw [← get_project] at hclamp
  exact hclamp

theorem project_project (b : Box K n) (hx : ∀ i, Scalar.isNaN (x.get i) = false) :
    b.project (b.project x) = b.project x :=
  project_of_contains (b.contains_project_of_number hx)

theorem contains_iff_project_eq (hx : ∀ i, Scalar.isNaN (x.get i) = false) :
    b.contains x = true ↔ b.project x = x := by
  refine ⟨project_of_contains, fun h => ?_⟩
  rw [← h]
  exact b.contains_project_of_number hx

theorem ordered (b : Box K n) (i : Fin n) : Ordered (b.lower.get i) (b.upper.get i) :=
  sides_iff_ordered.mp (b.sides i)

end Fixed

section Doubles

variable {n : Nat} {b : Box Float n} {x : Vector Float n}

theorem not_lt_of_beq {a c : Float} (h : (a == c) = true) : ¬ a < c ∧ ¬ c < a := by
  obtain ⟨-, -, hrank⟩ := (Double.beq_iff a c).mp h
  exact ⟨fun hlt => ((Double.lt_iff a c).mp hlt).2.2.ne hrank,
    fun hlt => ((Double.lt_iff c a).mp hlt).2.2.ne hrank.symm⟩

theorem contains_iff_project_beq (hx : ∀ i, (x.get i).isNaN = false) :
    b.contains x = true ↔ ∀ i, ((b.project x).get i == x.get i) = true := by
  constructor
  · intro h i
    rw [project_of_contains h]
    exact (Double.beq_iff _ _).mpr ⟨hx i, hx i, rfl⟩
  · intro h
    rw [contains_iff_project_eq hx]
    ext i hi
    have hbeq := h ⟨i, hi⟩
    rw [get_project] at hbeq
    change (b.project x).get ⟨i, hi⟩ = x.get ⟨i, hi⟩
    rw [get_project]
    rcases (b.sides ⟨i, hi⟩).clamp_cases (a := x.get ⟨i, hi⟩) with
      ⟨hclamp, -⟩ | ⟨l, -, hlt, hclamp⟩ | ⟨u, -, hlt, hclamp⟩
    · exact hclamp
    · rw [hclamp] at hbeq
      exact absurd hlt (not_lt_of_beq hbeq).2
    · rw [hclamp] at hbeq
      exact absurd hlt (not_lt_of_beq hbeq).1

end Doubles

section Distance

variable {n : Nat} {b : Box ℝ n} {x y : Vector ℝ n}

theorem dot_self_sub_project_add_le (hy : b.contains y = true) :
    dot (x - b.project x) (x - b.project x) + dot (b.project x - y) (b.project x - y) ≤
      dot (x - y) (x - y) := by
  have hobtuse := dot_sub_project_le (y := x) hy
  have hway : x - y = (x - b.project x) + (b.project x - y) := by
    ext i hi
    simp
  have hback : dot (x - b.project x) (b.project x - y) =
      -dot (x - b.project x) (y - b.project x) := by
    rw [Exact.dot_sub, Exact.dot_sub, neg_sub]
  rw [hway, Exact.dot_self_add, hback]
  linarith

theorem norm_sub_project_le (hy : b.contains y = true) :
    norm (x - b.project x) ≤ norm (x - y) := by
  rw [Exact.norm_le_norm_iff]
  linarith [dot_self_sub_project_add_le (x := x) hy, Exact.dot_self_nonneg (b.project x - y)]

theorem eq_project_of_norm_le (hy : b.contains y = true)
    (hle : norm (x - y) ≤ norm (x - b.project x)) : y = b.project x := by
  rw [Exact.norm_le_norm_iff] at hle
  refine (Exact.eq_of_sub_eq_zeros ?_).symm
  by_contra hne
  linarith [dot_self_sub_project_add_le (x := x) hy, Exact.dot_self_pos hne]

theorem dot_project_sub_project_nonneg (b : Box ℝ n) (x y : Vector ℝ n) :
    0 ≤ dot (b.project x - b.project y) ((x - b.project x) - (y - b.project y)) := by
  have hx := dot_sub_project_le (y := x) (b.contains_project y)
  have hy := dot_sub_project_le (y := y) (b.contains_project x)
  have hback : dot (b.project x - b.project y) (x - b.project x) =
      -dot (x - b.project x) (b.project y - b.project x) := by
    rw [Exact.dot_comm, Exact.dot_sub, Exact.dot_sub, neg_sub]
  rw [Exact.dot_sub, hback, Exact.dot_comm _ (y - b.project y)]
  linarith

theorem norm_project_sub_project_le (b : Box ℝ n) (x y : Vector ℝ n) :
    norm (b.project x - b.project y) ≤ norm (x - y) := by
  have hway : x - y = (b.project x - b.project y) +
      ((x - b.project x) - (y - b.project y)) := by
    ext i hi
    simp only [Vector.getElem_sub, Vector.getElem_add]
    ring
  rw [Exact.norm_le_norm_iff, hway, Exact.dot_self_add]
  linarith [b.dot_project_sub_project_nonneg x y,
    Exact.dot_self_nonneg ((x - b.project x) - (y - b.project y))]

end Distance

/-- Boxes are built of sides in order, and the first fault is reported otherwise. On doubles, a
projection leads into the box and fixes its points and no others. Where nothing is rounded, it is
the only nearest point of the box, and projecting brings no two points farther apart. -/
theorem projection_laws (n : Nat) :
    (∀ lower upper : Vector (Option Float) n,
      ((∃ b, ofSides lower upper = .ok b) ↔ ∀ i, Ordered (lower.get i) (upper.get i)) ∧
      (∀ b, ofSides lower upper = .ok b → b.lower = lower ∧ b.upper = upper) ∧
      ∀ fault, ofSides lower upper = .error fault ↔
        ∃ i : Fin n, (∀ j < i, Ordered (lower.get j) (upper.get j)) ∧
          Blames i (lower.get i) (upper.get i) fault) ∧
    (∀ b : Box Float n, (∀ i, Ordered (b.lower.get i) (b.upper.get i)) ∧
      ∀ x : Vector Float n, (∀ i, (x.get i).isNaN = false) →
        b.contains (b.project x) = true ∧
        b.project (b.project x) = b.project x ∧
        (b.contains x = true ↔ b.project x = x) ∧
        (b.contains x = true ↔ ∀ i, ((b.project x).get i == x.get i) = true)) ∧
    ∀ (b : Box ℝ n) (x : Vector ℝ n),
      b.contains (b.project x) = true ∧
      (∀ y, b.contains y = true →
        norm (x - b.project x) ≤ norm (x - y) ∧
        (norm (x - y) = norm (x - b.project x) → y = b.project x) ∧
        dot (x - b.project x) (y - b.project x) ≤ 0) ∧
      ∀ z, norm (b.project x - b.project z) ≤ norm (x - z) := by
  refine ⟨fun lower upper => ⟨?_, fun b => lower_upper_of_ofSides, fun fault => ?_⟩,
    fun b => ⟨b.ordered, fun x hx => ?_⟩, fun b x => ⟨b.contains_project x, fun y hy => ?_, ?_⟩⟩
  · simp only [exists_ofSides_eq_ok_iff, sides_iff_ordered]
  · simp only [ofSides_eq_error_iff_blames, sides_iff_ordered]
  · exact ⟨b.contains_project_of_number hx, b.project_project hx, contains_iff_project_eq hx,
      contains_iff_project_beq hx⟩
  · exact ⟨norm_sub_project_le hy, fun heq => eq_project_of_norm_le hy heq.le,
      dot_sub_project_le hy⟩
  · exact b.norm_project_sub_project_le x

section Example

/-- The doubles from 0 to 1 in the first coordinate, from -1 on in the second. -/
def strip : Box Float 2 where
  lower := .ofFn ![some 0.0, some (-1.0)]
  upper := .ofFn ![some 1.0, none]
  faultless := by decide +kernel

/-- A point beyond the upper side of the strip and beyond its lower one. -/
def beyond : Vector Float 2 :=
  .ofFn ![2.0, -3.0]

/-- The points of the plane whose coordinates are not negative. -/
noncomputable def quadrant : Box ℝ 2 where
  lower := .replicate 2 (some 0)
  upper := .replicate 2 none
  faultless := by
    simp [Box.firstFault?, List.findSome?_eq_none_iff, Box.faultAt, Exact.isNaN,
      Vector.get_eq_getElem]

theorem projection_laws_strip :
    (∀ i, (beyond.get i).isNaN = false) ∧ ofSides strip.lower strip.upper = .ok strip ∧
      Ordered (strip.lower.get 1) (strip.upper.get 1) ∧
      strip.contains (strip.project beyond) = true ∧
      strip.project (strip.project beyond) = strip.project beyond ∧
      strip.project beyond ≠ beyond ∧ strip.contains beyond = false ∧
      quadrant.contains (zeros) = true ∧
      ∀ x : Vector ℝ 2, norm (x - quadrant.project x) ≤ norm (x - zeros) ∧
        (norm (x - zeros) = norm (x - quadrant.project x) → zeros = quadrant.project x) := by
  obtain ⟨hbuilt, hdoubles, hexact⟩ := projection_laws 2
  have hbeyond : ∀ i, (beyond.get i).isNaN = false := by decide +kernel
  obtain ⟨hordered, hfixes⟩ := hdoubles strip
  obtain ⟨hin, htwice, hfixed, -⟩ := hfixes beyond hbeyond
  obtain ⟨b, hb⟩ := (hbuilt strip.lower strip.upper).1.mpr hordered
  have hsides := (hbuilt strip.lower strip.upper).2.1 b hb
  have hout : strip.contains beyond = false := by decide +kernel
  have hmoved : strip.project beyond ≠ beyond := fun h => by
    rw [hfixed.mpr h] at hout
    cases hout
  have horigin : quadrant.contains (zeros) = true := by
    norm_num [contains, quadrant, between, zeros, Vector.get_eq_getElem]
  refine ⟨hbeyond, ?_, hordered 1, hin, htwice, hmoved, hout, horigin, fun x => ?_⟩
  · rw [hb]
    cases b
    cases hsides.1
    cases hsides.2
    rfl
  · obtain ⟨hnearest, honly, -⟩ := (hexact quadrant x).2.1 (zeros) horigin
    exact ⟨hnearest, honly⟩

end Example

end LocalOptimization.Box
