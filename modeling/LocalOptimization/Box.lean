import LocalOptimization.Decimal
import LocalOptimization.Linear

/-!
# Boxes

A box bounds every coordinate from below and above; a side may be missing. Both sides are numbers
and in order, and this is part of the type.
-/

namespace LocalOptimization

/-- Why two vectors of sides do not bound a box. -/
inductive Box.Fault (K : Type) where
  /-- A side at this index is undefined. -/
  | notANumber (index : Nat)
  /-- The lower side at this index exceeds the upper one. -/
  | crossed (index : Nat) (lower upper : K)

variable {K : Type} [Scalar K] {n : Nat}

namespace Box

/-- The fault of the two sides of one coordinate. -/
def faultAt (index : Nat) (lower upper : Option K) : Option (Fault K) :=
  if lower.any Scalar.isNaN || upper.any Scalar.isNaN then some (.notANumber index)
  else match lower, upper with
    | some lo, some hi => if hi < lo then some (.crossed index lo hi) else none
    | _, _ => none

/-- The fault of least index. -/
def firstFault? (lower upper : Vector (Option K) n) : Option (Fault K) :=
  (List.finRange n).findSome? fun (i : Fin n) => faultAt i (lower.get i) (upper.get i)

/-- The text of a fault. -/
def Fault.message : Fault Float → String
  | notANumber index => s!"bound {index} is NaN"
  | crossed index lower upper =>
      s!"lower bound {Decimal.text lower} exceeds upper bound {Decimal.text upper} at index {index}"

end Box

/-- A box `lower ≤ x ≤ upper`. -/
structure Box (K : Type) [Scalar K] (n : Nat) where
  /-- The lower sides, `none` where there is none. -/
  lower : Vector (Option K) n
  /-- The upper sides, `none` where there is none. -/
  upper : Vector (Option K) n
  /-- The sides are numbers and in order. -/
  faultless : Box.firstFault? lower upper = none

namespace Box

/-- The box between two vectors of sides, or their fault of least index. -/
def ofSides (lower upper : Vector (Option K) n) : Except (Fault K) (Box K n) :=
  match h : firstFault? lower upper with
  | some fault => .error fault
  | none => .ok { lower, upper, faultless := h }

theorem ofSides_eq_error_iff (lower upper : Vector (Option K) n) (fault : Fault K) :
    ofSides lower upper = .error fault ↔ firstFault? lower upper = some fault := by
  unfold ofSides
  split <;> simp_all

/-- The number moved up to `lo` and then down to `hi`; an undefined one stays. -/
def clamp (lo hi : Option K) (a : K) : K :=
  let raised := match lo with
    | some l => if a < l then l else a
    | none => a
  match hi with
  | some h => if h < raised then h else raised
  | none => raised

/-- The number is at least `lo` and at most `hi`. -/
def between (lo hi : Option K) (a : K) : Bool :=
  lo.all (fun l => decide (l ≤ a)) && hi.all (fun h => decide (a ≤ h))

/-- The nearest point of the box. -/
def project (b : Box K n) (x : Vector K n) : Vector K n :=
  Vector.ofFn fun i => clamp (b.lower.get i) (b.upper.get i) (x.get i)

/-- The point lies in the box. -/
def contains (b : Box K n) (x : Vector K n) : Bool :=
  (List.finRange n).all fun i => between (b.lower.get i) (b.upper.get i) (x.get i)

end Box

end LocalOptimization
