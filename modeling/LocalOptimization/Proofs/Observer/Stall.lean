import LocalOptimization.Observer.Stall
import LocalOptimization.Proofs.Double.Subtraction
import LocalOptimization.Proofs.Run

/-!
# What a stall detector has seen

The memory of a detector is a function of the objectives it was fed: the last one that improved, and
the number of those since. It asks to stop exactly at the end of a window without an improvement.
What it remembers is not the lowest objective, since a dip within the tolerance is no improvement.
-/

namespace LocalOptimization.Stall

section Sequences

variable {K : Type} [Scalar K]

/-- What an objective has to lie below to improve on a reference. -/
def level (tolerance reference : K) : K :=
  if Scalar.isFinite reference then reference - tolerance else reference

/-- What event `n` is measured by: the objective of the last event before it that improved. -/
def reference (tolerance : K) (objectives : ℕ → K) : ℕ → K
  | 0 => Scalar.infinity
  | n + 1 =>
      let r := reference tolerance objectives n
      if objectives n < level tolerance r then objectives n else r

/-- Event `n` improves on the events before it. -/
def Improving (tolerance : K) (objectives : ℕ → K) (n : ℕ) : Prop :=
  objectives n < level tolerance (reference tolerance objectives n)

instance instDecidablePredImproving (tolerance : K) (objectives : ℕ → K) :
    DecidablePred (Improving tolerance objectives) :=
  fun _ => Arithmetic.instDecidableLT ..

/-- The number of events in a row before event `n` that did not improve. -/
def idle (tolerance : K) (objectives : ℕ → K) : ℕ → ℕ
  | 0 => 0
  | n + 1 =>
      if Improving tolerance objectives n then 0 else idle tolerance objectives n + 1

/-- The detector that has seen the first `n` objectives. -/
def fed (patience : ℕ) (tolerance : K) (objectives : ℕ → K) (n : ℕ) : Stall K :=
  observer.after (start patience tolerance) ((List.range n).map objectives)

variable {patience : ℕ} {tolerance : K} {objectives : ℕ → K} {n : ℕ}

theorem reference_succ_of_improving (improving : Improving tolerance objectives n) :
    reference tolerance objectives (n + 1) = objectives n :=
  if_pos improving

theorem reference_succ_of_not_improving (idles : ¬ Improving tolerance objectives n) :
    reference tolerance objectives (n + 1) = reference tolerance objectives n :=
  if_neg idles

theorem fed_succ : fed patience tolerance objectives (n + 1) =
    ((fed patience tolerance objectives n).feed (objectives n)).2 := by
  simp [fed, Observer.after, List.range_succ, observer]

theorem improves_iff (s : Stall K) (objective : K) :
    s.improves objective = true ↔ objective < level s.tolerance s.best := by
  unfold improves level
  split <;> simp

theorem fed_eq (patience : ℕ) (tolerance : K) (objectives : ℕ → K) (n : ℕ) :
    fed patience tolerance objectives n =
      ⟨Nat.max patience 1, tolerance, reference tolerance objectives n,
        idle tolerance objectives n⟩ := by
  induction n with
  | zero => rfl
  | succ n ih =>
      rw [fed_succ, ih, feed]
      simp only [improves_iff]
      change (if Improving tolerance objectives n then _ else _ : Bool × Stall K).2 = _
      by_cases improving : Improving tolerance objectives n
      · rw [if_pos improving, reference_succ_of_improving improving, idle, if_pos improving]
      · rw [if_neg improving, reference_succ_of_not_improving improving, idle, if_neg improving]

theorem stops_iff_le_idle :
    (observer.observe (fed patience tolerance objectives n) (objectives n)).1 = true ↔
      Nat.max patience 1 ≤ idle tolerance objectives (n + 1) := by
  have waits : 1 ≤ Nat.max patience 1 := Nat.le_max_right ..
  rw [fed_eq, idle]
  simp only [observer, feed, improves_iff]
  change (if Improving tolerance objectives n then _ else _ : Bool × Stall K).1 = _ ↔ _
  by_cases improving : Improving tolerance objectives n
  · rw [if_pos improving, if_pos improving]
    simp only [Bool.false_eq_true, false_iff]
    omega
  · rw [if_neg improving, if_neg improving]
    exact decide_eq_true_iff

theorem le_idle_iff {k : ℕ} : k ≤ idle tolerance objectives n ↔
    k ≤ n ∧ ∀ m < n, n ≤ m + k → ¬ Improving tolerance objectives m := by
  induction n generalizing k with
  | zero => simp [idle]
  | succ n ih =>
      obtain _ | k := k
      · simp only [Nat.zero_le, true_and, true_iff]
        omega
      · by_cases improving : Improving tolerance objectives n
        · rw [idle, if_pos improving]
          constructor
          · intro h
            omega
          · intro ⟨_, h⟩
            exact absurd improving (h n (by omega) (by omega))
        · rw [idle, if_neg improving, Nat.add_le_add_iff_right, Nat.add_le_add_iff_right, ih,
            Nat.forall_lt_succ_right, and_iff_left fun _ => improving]
          simp only [← Nat.add_assoc, Nat.add_le_add_iff_right]

/-- The reference is the objective of the last event that improved, or infinite if none did. -/
theorem reference_eq (tolerance : K) (objectives : ℕ → K) (n : ℕ) :
    (reference tolerance objectives n = Scalar.infinity ∧
        ∀ m < n, ¬ Improving tolerance objectives m) ∨
      ∃ m < n, Improving tolerance objectives m ∧
        reference tolerance objectives n = objectives m ∧
        ∀ k < n, m < k → ¬ Improving tolerance objectives k := by
  induction n with
  | zero => exact .inl ⟨rfl, by omega⟩
  | succ n ih =>
      by_cases improving : Improving tolerance objectives n
      · refine .inr ⟨n, by omega, improving, reference_succ_of_improving improving, ?_⟩
        omega
      · rw [reference_succ_of_not_improving improving]
        rcases ih with ⟨hinfinity, hnone⟩ | ⟨m, hm, himproving, heq, hlast⟩
        · exact .inl ⟨hinfinity, Nat.forall_lt_succ_right.mpr ⟨hnone, improving⟩⟩
        · exact .inr ⟨m, by omega, himproving, heq,
            Nat.forall_lt_succ_right.mpr ⟨hlast, fun _ => improving⟩⟩

theorem reference_seen (tolerance : K) (objectives : ℕ → K) (n : ℕ) :
    reference tolerance objectives n = Scalar.infinity ∨
      ∃ m < n, objectives m = reference tolerance objectives n := by
  rcases reference_eq tolerance objectives n with ⟨heq, _⟩ | ⟨m, hm, _, heq, _⟩
  · exact .inl heq
  · exact .inr ⟨m, hm, heq.symm⟩

end Sequences

section Doubles

variable {tolerance r x : Float} {objectives : ℕ → Float} {n : ℕ}

theorem lt_of_lt_level (ht : 0.0 ≤ tolerance) (h : x < level tolerance r) : x < r := by
  unfold level at h
  split at h
  · next finite => exact Double.lt_of_lt_sub finite ht h
  · exact h

theorem lt_level_iff (ht : 0.0 ≤ tolerance) (ht' : tolerance ≤ 0.0) :
    x < level tolerance r ↔ x < r := by
  unfold level
  split
  · next finite => exact Double.lt_sub_iff_of_zero finite ht ht'
  · rfl

theorem isNaN_eq_false_of_improving (improving : Improving tolerance objectives n) :
    (objectives n).isNaN = false :=
  ((Double.lt_iff ..).mp improving).1

theorem isNaN_reference (tolerance : Float) (objectives : ℕ → Float) (n : ℕ) :
    (reference tolerance objectives n).isNaN = false := by
  rcases reference_eq tolerance objectives n with ⟨heq, _⟩ | ⟨m, _, improving, heq, _⟩
  · rw [heq]
    decide +kernel
  · rw [heq]
    exact isNaN_eq_false_of_improving improving

theorem reference_succ_le (ht : 0.0 ≤ tolerance) :
    reference tolerance objectives (n + 1) ≤ reference tolerance objectives n := by
  have hnumber := isNaN_reference tolerance objectives n
  rw [Double.le_iff]
  by_cases improving : Improving tolerance objectives n
  · have hlt := (Double.lt_iff ..).mp (lt_of_lt_level ht improving)
    rw [reference_succ_of_improving improving]
    exact ⟨hlt.1, hlt.2.1, hlt.2.2.le⟩
  · rw [reference_succ_of_not_improving improving]
    exact ⟨hnumber, hnumber, le_rfl⟩

theorem not_lt_level_reference (ht : 0.0 ≤ tolerance) :
    ∀ m < n, ¬ objectives m < level tolerance (reference tolerance objectives n) := by
  induction n with
  | zero => simp
  | succ n ih =>
      rw [Nat.forall_lt_succ_right]
      by_cases improving : Improving tolerance objectives n
      · -- What improves on the new reference improves on the old one.
        rw [reference_succ_of_improving improving]
        constructor
        · intro m hm hlevel
          exact ih m hm (Double.lt_trans (lt_of_lt_level ht hlevel) improving)
        · intro hlevel
          exact ((Double.lt_iff ..).mp (lt_of_lt_level ht hlevel)).2.2.ne rfl
      · rw [reference_succ_of_not_improving improving]
        exact ⟨ih, improving⟩

theorem not_lt_of_improving (ht : 0.0 ≤ tolerance) (improving : Improving tolerance objectives n)
    {m : ℕ} (hm : m < n) : ¬ objectives m < objectives n :=
  fun hlt => not_lt_level_reference ht m hm (Double.lt_trans hlt improving)

/-- A detector asks to stop exactly at the end of a window without an improvement, and measures an
objective by that of the last improvement. -/
theorem stops_iff_window_idles (patience : ℕ) (tolerance : Float) (objectives : ℕ → Float)
    (n : ℕ) :
    ((observer.observe (fed patience tolerance objectives n) (objectives n)).1 = true ↔
        max patience 1 ≤ n + 1 ∧
          ∀ m ≤ n, n < m + max patience 1 → ¬ Improving tolerance objectives m) ∧
      (fed patience tolerance objectives n).best = reference tolerance objectives n ∧
      (reference tolerance objectives n = Scalar.infinity ∧
          (∀ m < n, ¬ Improving tolerance objectives m) ∨
        ∃ m < n, Improving tolerance objectives m ∧
          reference tolerance objectives n = objectives m ∧
          ∀ k < n, m < k → ¬ Improving tolerance objectives k) ∧
      ((objectives n).isNaN = true → ¬ Improving tolerance objectives n ∧
        reference tolerance objectives (n + 1) = reference tolerance objectives n) ∧
      (0.0 ≤ tolerance →
        reference tolerance objectives (n + 1) ≤ reference tolerance objectives n) := by
  refine ⟨?_, by rw [fed_eq], reference_eq tolerance objectives n, fun hnan => ?_,
    reference_succ_le⟩
  · rw [stops_iff_le_idle, le_idle_iff]
    simp only [Nat.lt_succ_iff, Nat.succ_le_iff]
  · have idles : ¬ Improving tolerance objectives n := by
      intro improving
      rw [isNaN_eq_false_of_improving improving] at hnan
      cases hnan
    exact ⟨idles, reference_succ_of_not_improving idles⟩

/-- Three fives, then fours: only the improvement at event 3 makes the count start anew. -/
def steps : ℕ → Float
  | 0 | 1 | 2 => 5.0
  | _ => 4.0

example : (List.range 7).map (fun n => (observer.observe (fed 3 0.0 steps n) (steps n)).1) =
    [false, false, false, false, false, false, true] := by
  decide +kernel

/-- The number is the least of the first `n` objectives, those that are NaN left out, or infinity
if there is none. -/
structure IsLowest (objectives : ℕ → Float) (n : ℕ) (lowest : Float) : Prop where
  number : lowest.isNaN = false
  seen : lowest = Scalar.infinity ∨ ∃ m < n, objectives m = lowest
  le : ∀ m < n, (objectives m).isNaN = false → lowest ≤ objectives m

theorem isLowest_reference_iff (tolerance : Float) (objectives : ℕ → Float) (n : ℕ) :
    IsLowest objectives n (reference tolerance objectives n) ↔
      ∀ m < n, ¬ objectives m < reference tolerance objectives n := by
  have hnumber := isNaN_reference tolerance objectives n
  constructor
  · intro lowest m hm hlt
    have hle := lowest.le m hm ((Double.lt_iff ..).mp hlt).1
    exact absurd ((Double.lt_iff ..).mp hlt).2.2 (not_lt.mpr ((Double.le_iff ..).mp hle).2.2)
  · intro h
    refine ⟨hnumber, reference_seen tolerance objectives n, fun m hm hnan => ?_⟩
    rw [Double.le_iff]
    refine ⟨hnumber, hnan, le_of_not_gt fun hlt => h m hm ?_⟩
    exact (Double.lt_iff ..).mpr ⟨hnan, hnumber, hlt⟩

theorem lt_of_improving_of_lt_reference (ht : 0.0 ≤ tolerance) {m : ℕ}
    (hlt : objectives m < reference tolerance objectives n) :
    ∀ k < n, Improving tolerance objectives k → k < m := by
  intro k hk improving
  rcases reference_eq tolerance objectives n with ⟨_, hnone⟩ | ⟨last, _, himproves, heq, hlast⟩
  · exact absurd improving (hnone k hk)
  · have hbefore : k ≤ last := le_of_not_gt fun h => hlast k hk h improving
    rw [heq] at hlt
    have hafter : last < m := by
      rcases Nat.lt_trichotomy m last with hml | rfl | hml
      · exact absurd hlt (not_lt_of_improving ht himproves hml)
      · exact absurd rfl ((Double.lt_iff ..).mp hlt).2.2.ne
      · exact hml
    omega

/-- What a detector remembers is one of the objectives, and none improves on it. It is the lowest
one exactly if no objective since the last improvement lies below it. -/
theorem isLowest_best_iff (patience : ℕ) {tolerance : Float} (ht : 0.0 ≤ tolerance)
    (objectives : ℕ → Float) (n : ℕ) :
    ((fed patience tolerance objectives n).best = Scalar.infinity ∨
        ∃ m < n, objectives m = (fed patience tolerance objectives n).best) ∧
      (∀ m < n, ¬ objectives m < level tolerance (fed patience tolerance objectives n).best) ∧
      (IsLowest objectives n (fed patience tolerance objectives n).best ↔
        ∀ m < n, (∀ k < n, Improving tolerance objectives k → k < m) →
          ¬ objectives m < (fed patience tolerance objectives n).best) ∧
      (tolerance ≤ 0.0 → IsLowest objectives n (fed patience tolerance objectives n).best) := by
  rw [fed_eq]
  refine ⟨reference_seen tolerance objectives n, not_lt_level_reference ht, ?_,
    fun ht' => ?_⟩
  · rw [isLowest_reference_iff]
    constructor
    · intro h m hm _
      exact h m hm
    · intro h m hm hlt
      exact h m hm (lt_of_improving_of_lt_reference ht hlt) hlt
  · rw [isLowest_reference_iff]
    intro m hm hlt
    exact not_lt_level_reference ht m hm ((lt_level_iff ht ht').mpr hlt)

/-- A fall from 10 to 9.75. -/
def dip : ℕ → Float
  | 0 => 10.0
  | _ => 9.75

theorem isLowest_best_iff_dip : 0.0 ≤ (0.0 : Float) ∧
    IsLowest dip 2 (fed 2 0.0 dip 2).best ∧ (fed 2 0.0 dip 2).best = 9.75 := by
  have ht : 0.0 ≤ (0.0 : Float) := by decide +kernel
  exact ⟨ht, (isLowest_best_iff 2 ht dip 2).2.2.2 ht, rfl⟩

/-- A dip within the tolerance is not remembered. -/
theorem not_isLowest_best_dip : 0.0 ≤ (0.5 : Float) ∧
    (fed 2 0.5 dip 2).best = 10.0 ∧ dip 1 = 9.75 ∧ ¬ IsLowest dip 2 (fed 2 0.5 dip 2).best := by
  have hbest : (fed 2 0.5 dip 2).best = 10.0 := by decide +kernel
  refine ⟨by decide +kernel, hbest, rfl, ?_⟩
  intro lowest
  have hle := lowest.le 1 (by decide) (by decide +kernel)
  rw [hbest] at hle
  exact absurd hle (by decide +kernel)

end Doubles

end LocalOptimization.Stall
