import Mathlib.Data.List.DropRight
import LocalOptimization.History

/-!
# What a history holds

Pushing the records of a run one by one leaves the last of them, as many as the limit allows, and a
count of the others. A history with a limit is what imposing the limit on one without would leave.
-/

namespace LocalOptimization.History

variable {R : Type}

section Push

theorem mem_toList_push {h : History R} {r r' : R} (hmem : r' ∈ (h.push r).toList) :
    r' = r ∨ r' ∈ h.toList := by
  simp only [push, toList, List.mem_reverse] at hmem ⊢
  split at hmem
  · simpa using hmem
  · split at hmem
    · simpa using hmem
    · simpa using List.mem_of_mem_take hmem

theorem mem_toList_foldl_push {records : List R} {h : History R} {r : R}
    (hmem : r ∈ (records.foldl push h).toList) : r ∈ records ∨ r ∈ h.toList := by
  induction records generalizing h with
  | nil => exact .inr hmem
  | cons first rest ih =>
      rcases ih hmem with hrest | hpush
      · exact .inl (List.mem_cons_of_mem _ hrest)
      · rcases mem_toList_push hpush with rfl | hold
        · exact .inl List.mem_cons_self
        · exact .inr hold

@[simp]
theorem limit_push (h : History R) (r : R) : (h.push r).limit = h.limit := by
  simp only [push]
  split
  · rfl
  · split <;> rfl

@[simp]
theorem limit_foldl_push (records : List R) (h : History R) :
    (records.foldl push h).limit = h.limit := by
  induction records generalizing h with
  | nil => rfl
  | cons r records ih => rw [List.foldl_cons, ih, limit_push]

theorem toList_foldl_push_of_limit_eq_none (records : List R) {h : History R}
    (unlimited : h.limit = none) : (records.foldl push h).toList = h.toList ++ records := by
  induction records generalizing h with
  | nil => simp
  | cons r records ih =>
      rw [List.foldl_cons, ih (by rw [limit_push, unlimited]),
        toList_push_of_limit_eq_none h r unlimited]
      simp

theorem dropped_foldl_push_of_limit_eq_none (records : List R) {h : History R}
    (unlimited : h.limit = none) : (records.foldl push h).dropped = h.dropped := by
  induction records generalizing h with
  | nil => rfl
  | cons r records ih =>
      rw [List.foldl_cons, ih (by rw [limit_push, unlimited])]
      simp [push, unlimited]

theorem suffix_push {h : History R} {l : List R} (r : R) (hl : h.toList <:+ l) :
    (h.push r).toList <:+ l ++ [r] := by
  obtain ⟨dropped, rfl⟩ := hl
  simp only [push, toList]
  split
  · exact ⟨dropped, by simp⟩
  · split
    · exact ⟨dropped, by simp⟩
    · next limit _ _ =>
        refine ⟨dropped ++ ((r :: h.kept).drop limit).reverse, ?_⟩
        have hkept : (r :: h.kept).reverse =
            ((r :: h.kept).drop limit).reverse ++ ((r :: h.kept).take limit).reverse := by
          rw [← List.reverse_append, List.take_append_drop]
        rw [List.append_assoc, ← hkept]
        simp

theorem suffix_foldl_push {records : List R} {h : History R} {l : List R} (hl : h.toList <:+ l) :
    (records.foldl push h).toList <:+ l ++ records := by
  induction records generalizing h l with
  | nil => simpa using hl
  | cons r records ih => simpa using ih (suffix_push r hl)

end Push

section Limit

/-- What a history without a limit would be with one: its last records, and a count of the others.
-/
def limitedTo : Option Nat → History R → History R
  | none, h => h
  | some limit, h => {
      limit := some limit
      kept := (h.toList.rtake limit).reverse
      dropped := h.toList.length - min limit h.toList.length }

theorem limitedTo_empty (limit : Option Nat) :
    (empty none : History R).limitedTo limit = empty limit := by
  cases limit with
  | none => rfl
  | some limit => simp [limitedTo, empty, toList]

theorem toList_limitedTo_some (limit : Nat) (h : History R) :
    (h.limitedTo (some limit)).toList = h.toList.rtake limit := by
  simp [limitedTo, toList]

theorem limitedTo_some_eq (limit : Nat) (h : History R) :
    h.limitedTo (some limit) = {
      limit := some limit
      kept := h.kept.take limit
      dropped := h.kept.length - min limit h.kept.length } := by
  simp [limitedTo, toList, List.rtake_eq_reverse_take_reverse]

/-- Pushing a record comes to the same before and after a limit is imposed. -/
theorem limitedTo_push (limit : Option Nat) {h : History R} (unlimited : h.limit = none) (r : R) :
    (h.push r).limitedTo limit = (h.limitedTo limit).push r := by
  cases limit with
  | none => rfl
  | some limit =>
      have hpush : (h.push r).kept = r :: h.kept := by simp [push, unlimited]
      rw [limitedTo_some_eq, limitedTo_some_eq, hpush, push]
      by_cases hroom : h.kept.length < limit
      · have hkept : h.kept.take limit = h.kept := List.take_of_length_le hroom.le
        have hall : (r :: h.kept).take limit = r :: h.kept := List.take_of_length_le hroom
        simp only [hkept, hall, if_pos hroom, List.length_cons]
        rw [Nat.min_eq_right hroom.le, Nat.min_eq_right (Nat.succ_le_of_lt hroom)]
        simp
      · have hfull : ¬ (h.kept.take limit).length < limit := by
          simp only [List.length_take]
          omega
        have htake : (r :: h.kept.take limit).take limit = (r :: h.kept).take limit := by
          cases limit with
          | zero => rfl
          | succ limit => simp [List.take_take]
        simp only [if_neg hfull, htake, List.length_cons]
        congr 1
        omega

theorem limitedTo_foldl_push (limit : Option Nat) (records : List R) {h : History R}
    (unlimited : h.limit = none) :
    (records.foldl push h).limitedTo limit = records.foldl push (h.limitedTo limit) := by
  induction records generalizing h with
  | nil => rfl
  | cons r records ih =>
      rw [List.foldl_cons, List.foldl_cons, ih (by rw [limit_push, unlimited]),
        limitedTo_push limit unlimited]

end Limit

/-- The number of records that a history with this limit keeps of so many. -/
def retained : Option Nat → Nat → Nat
  | none, count => count
  | some limit, count => min limit count

theorem retained_le (limit : Option Nat) (count : Nat) : retained limit count ≤ count := by
  cases limit with
  | none => exact Nat.le_refl count
  | some limit => exact Nat.min_le_right limit count

section Empty

variable (limit : Option Nat) (records : List R)

theorem toList_foldl_push_unlimited : (records.foldl push (empty none)).toList = records := by
  rw [toList_foldl_push_of_limit_eq_none records rfl, toList_empty, List.nil_append]

theorem foldl_push_empty_eq :
    records.foldl push (empty limit) = (records.foldl push (empty none)).limitedTo limit := by
  rw [limitedTo_foldl_push limit records rfl, limitedTo_empty]

theorem dropped_foldl_push_empty :
    (records.foldl push (empty limit)).dropped =
      records.length - retained limit records.length := by
  rw [foldl_push_empty_eq]
  cases limit with
  | none =>
      rw [limitedTo, dropped_foldl_push_of_limit_eq_none records rfl, retained, Nat.sub_self]
      rfl
  | some limit => rw [limitedTo, toList_foldl_push_unlimited, retained]

theorem toList_foldl_push_empty :
    (records.foldl push (empty limit)).toList =
        records.drop (records.foldl push (empty limit)).dropped ∧
      (records.foldl push (empty limit)).dropped ≤ records.length := by
  rw [dropped_foldl_push_empty, foldl_push_empty_eq]
  refine ⟨?_, Nat.sub_le _ _⟩
  cases limit with
  | none =>
      rw [limitedTo, toList_foldl_push_unlimited, retained, Nat.sub_self, List.drop_zero]
  | some limit =>
      rw [toList_limitedTo_some, toList_foldl_push_unlimited, retained, List.rtake]
      congr 1
      omega

theorem size_foldl_push_empty :
    (records.foldl push (empty limit)).size = retained limit records.length := by
  rw [← length_toList, (toList_foldl_push_empty limit records).1, List.length_drop,
    dropped_foldl_push_empty, Nat.sub_sub_self (retained_le limit records.length)]

/-- After any sequence of pushes a history holds the last of the records, as many as its limit
allows, and has counted the others. -/
theorem keeps_last_records :
    (records.foldl push (empty limit)).toList =
        records.drop (records.length - retained limit records.length) ∧
      (records.foldl push (empty limit)).size = retained limit records.length ∧
      (records.foldl push (empty limit)).size =
        (records.foldl push (empty limit)).toList.length ∧
      (records.foldl push (empty limit)).isEmpty =
        (records.foldl push (empty limit)).toList.isEmpty ∧
      (records.foldl push (empty limit)).last? =
        (records.foldl push (empty limit)).toList.getLast? ∧
      (records.foldl push (empty limit)).dropped =
        records.length - (records.foldl push (empty limit)).size := by
  have hsize := size_foldl_push_empty limit records
  have hdropped := dropped_foldl_push_empty limit records
  refine ⟨?_, hsize, (length_toList _).symm, (isEmpty_toList _).symm, (getLast?_toList _).symm, ?_⟩
  · rw [(toList_foldl_push_empty limit records).1, hdropped]
  · rw [hsize, hdropped]

end Empty

example : ((List.range 5).foldl push (empty (some 3))).toList = [2, 3, 4] := by decide

end LocalOptimization.History
