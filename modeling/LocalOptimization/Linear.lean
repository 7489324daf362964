import LocalOptimization.Scalar

/-!
# Vectors and matrices

Vectors have a fixed length and matrices are square, stored by rows. Sums, differences and
multiples of both are those of `Vector`, entry by entry.
-/

namespace LocalOptimization

/-- A square matrix, row by row. -/
abbrev Matrix (K : Type) (n : Nat) : Type :=
  Vector (Vector K n) n

variable {K : Type} {n : Nat}

section Arithmetic

variable [Arithmetic K]

/-- The inner product, added up from the first coordinate on. -/
def dot (a b : Vector K n) : K :=
  Scalar.sum (Vector.zipWith (· * ·) a b).toList

/-- The product of a matrix and a vector. -/
def mulVec (m : Matrix K n) (v : Vector K n) : Vector K n :=
  m.map fun row => dot row v

/-- The number `vᵗMv`. -/
def quadraticForm (m : Matrix K n) (v : Vector K n) : K :=
  dot v (mulVec m v)

/-- The matrix `abᵗ`. -/
def outer (a b : Vector K n) : Matrix K n :=
  a.map fun c => c * b

/-- The identity matrix. -/
def identity : Matrix K n :=
  Vector.ofFn fun i => Vector.ofFn fun j => if i = j then 1.0 else 0.0

/-- The vector of zeros. -/
def zeros : Vector K n :=
  Vector.replicate n 0.0

@[simp]
theorem getElem_mulVec (m : Matrix K n) (v : Vector K n) (i : Nat) (h : i < n) :
    (mulVec m v)[i] = dot m[i] v := by
  simp [mulVec]

@[simp]
theorem getElem_outer (a b : Vector K n) (i : Nat) (h : i < n) : (outer a b)[i] = a[i] * b := by
  simp [outer]

@[simp]
theorem getElem_identity (i j : Nat) (hi : i < n) (hj : j < n) :
    (identity : Matrix K n)[i][j] = if i = j then (1.0 : K) else 0.0 := by
  simp [identity]

@[simp]
theorem getElem_zeros (i : Nat) (h : i < n) : (zeros : Vector K n)[i] = (0.0 : K) := by
  simp [zeros]

end Arithmetic

variable [Scalar K]

/-- The Euclidean norm. -/
def norm (a : Vector K n) : K :=
  Scalar.sqrt (dot a a)

/-- Every coordinate is finite. -/
def allFinite (a : Vector K n) : Bool :=
  a.all Scalar.isFinite

end LocalOptimization
