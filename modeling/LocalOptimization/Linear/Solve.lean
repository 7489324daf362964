import LocalOptimization.Linear

/-!
# Linear systems

Gaussian elimination with partial pivoting, by recursion on the dimension: the pivot row removes
the first unknown from the other rows, the smaller system gives the other unknowns, and the pivot
row then gives the first. A pivot that nearly vanishes is replaced instead of failing, and
counted.
-/

namespace LocalOptimization

variable {K : Type} [Scalar K] {n : Nat}

/-- The solution of a linear system. -/
structure LinearSolution (K : Type) (n : Nat) where
  x : Vector K n
  /-- The number of pivots that were replaced. -/
  regularized : Nat

/-- No pivot was replaced. -/
def LinearSolution.isRegular (s : LinearSolution K n) : Bool :=
  s.regularized == 0

/-- Pivots of smaller magnitude are replaced by this one. -/
def pivotFloor : K :=
  1e-12

/-- The entries after the first. -/
def rest (v : Vector K (n + 1)) : Vector K n :=
  Vector.ofFn fun i => v[i.succ]

/-- The index of the entry of greatest magnitude, the last of equals. -/
def pivotIndex (v : Vector K (n + 1)) : Fin (n + 1) :=
  (List.finRange (n + 1)).foldl
    (fun best i => if Scalar.magnitudeLE v[best] v[i] then i else best) 0

/-- The pivot is too small to divide by. -/
def needsRegularizing (pivot : K) : Bool :=
  decide (Scalar.abs pivot < pivotFloor)

/-- The pivot to divide by: one that is too small keeps its sign only. -/
def regularize (pivot : K) : K :=
  if needsRegularizing pivot then Scalar.withSignOf pivotFloor pivot else pivot

/-- Solves `Ax = b`. -/
def solveLinear : {n : Nat} → Matrix K n → Vector K n → LinearSolution K n
  | 0, _, _ => { x := #v[], regularized := 0 }
  | n + 1, a, b =>
      let top := pivotIndex (a.map fun row => row[0])
      let a := a.swap 0 top
      let b := b.swap 0 top
      let pivot := regularize a[0][0]
      let below : Matrix K n := Vector.ofFn fun i =>
        rest a[i.succ] - (a[i.succ][0] / pivot) * rest a[0]
      let belowRhs : Vector K n := Vector.ofFn fun i =>
        b[i.succ] - a[i.succ][0] / pivot * b[0]
      let s := solveLinear below belowRhs
      { x := Vector.ofFn (Fin.cases ((b[0] - dot (rest a[0]) s.x) / pivot) fun i => s.x[i])
        regularized := s.regularized + if needsRegularizing a[0][0] then 1 else 0 }

end LocalOptimization
