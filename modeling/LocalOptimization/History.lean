/-!
# Histories

A history keeps the records of a run. With a limit it keeps the most recent ones and counts the
others.
-/

namespace LocalOptimization

/-- The most recent records that were pushed, up to a limit. -/
structure History (R : Type) where
  /-- The number of records to keep, `none` for all. -/
  limit : Option Nat
  /-- The records kept, newest first. -/
  kept : List R := []
  /-- The number of records no longer kept. -/
  dropped : Nat := 0

namespace History

variable {R : Type}

/-- The history without records. -/
def empty (limit : Option Nat) : History R where
  limit

/-- Appends a record. At the limit the oldest one, which may be the new one itself, is dropped. -/
def push (h : History R) (r : R) : History R :=
  let kept := r :: h.kept
  match h.limit with
  | none => { h with kept }
  | some limit =>
      if h.kept.length < limit then { h with kept }
      else { h with kept := kept.take limit, dropped := h.dropped + 1 }

/-- The records kept, oldest first. -/
def toList (h : History R) : List R :=
  h.kept.reverse

/-- The newest record. -/
def last? (h : History R) : Option R :=
  h.kept.head?

/-- The number of records kept. -/
def size (h : History R) : Nat :=
  h.kept.length

/-- No record is kept. -/
def isEmpty (h : History R) : Bool :=
  h.kept.isEmpty

@[simp]
theorem toList_empty (limit : Option Nat) : (empty limit : History R).toList = [] :=
  rfl

theorem length_toList (h : History R) : h.toList.length = h.size := by
  simp [toList, size]

theorem getLast?_toList (h : History R) : h.toList.getLast? = h.last? := by
  simp [toList, last?]

theorem isEmpty_toList (h : History R) : h.toList.isEmpty = h.isEmpty := by
  simp [toList, isEmpty]

/-- Without a limit every record is kept. -/
theorem toList_push_of_limit_eq_none (h : History R) (r : R) (unlimited : h.limit = none) :
    (h.push r).toList = h.toList ++ [r] := by
  simp [push, toList, unlimited]

end History

end LocalOptimization
