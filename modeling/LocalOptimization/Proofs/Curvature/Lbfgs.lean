import Mathlib
import LocalOptimization.Curvature.Lbfgs
import LocalOptimization.Proofs.Field

/-!
# The matrix behind limited-memory BFGS

The model never forms its inverse Hessian. In exact arithmetic its direction is that of the matrix
that dense BFGS updates make of a scaled identity, by the last of the pairs that were not skipped.
-/

namespace LocalOptimization.Lbfgs

section TwoLoops

variable {K : Type} [Arithmetic K] {n : Nat}

/-- The first loop, from the newest pair to the oldest: takes every pair out of the vector and keeps
its multiple, so that the multiple of the oldest pair comes first. -/
def takeOut : List (Correction K n) → Vector K n → List K → Vector K n × List K
  | [], q, alphas => (q, alphas)
  | c :: older, q, alphas =>
      let alpha := c.rho * dot c.s q
      takeOut older (q - alpha * c.y) (alpha :: alphas)

/-- The second loop, from the oldest pair to the newest: puts every pair back. -/
def putBack : List (Correction K n × K) → Vector K n → Vector K n
  | [], r => r
  | (c, alpha) :: newer, r => putBack newer (r + (alpha - c.rho * dot c.y r) * c.s)

def twoLoops (m : Lbfgs K n) (g : Vector K n) : Vector K n :=
  -putBack (m.corrections.reverse.zip (takeOut m.corrections g []).2)
    (scale m.corrections * (takeOut m.corrections g []).1)

theorem takeOut_append (corrections : List (Correction K n)) (q : Vector K n) (alphas : List K) :
    takeOut corrections q alphas =
      ((takeOut corrections q []).1, (takeOut corrections q []).2 ++ alphas) := by
  induction corrections generalizing q alphas with
  | nil => rfl
  | cons c older ih =>
      rw [takeOut, takeOut, ih, ih _ [_], List.append_assoc]
      rfl

theorem length_takeOut (corrections : List (Correction K n)) (q : Vector K n) (alphas : List K) :
    (takeOut corrections q alphas).2.length = corrections.length + alphas.length := by
  induction corrections generalizing q alphas with
  | nil => simp [takeOut]
  | cons c older ih =>
      rw [takeOut, ih, List.length_cons, List.length_cons]
      omega

theorem putBack_append (older newer : List (Correction K n × K)) (r : Vector K n) :
    putBack (older ++ newer) r = putBack newer (putBack older r) := by
  induction older generalizing r with
  | nil => rfl
  | cons c older ih => exact ih _

theorem applyInverse_eq_putBack (gamma : K) (corrections : List (Correction K n))
    (q : Vector K n) :
    applyInverse gamma corrections q =
      putBack (corrections.reverse.zip (takeOut corrections q []).2)
        (gamma * (takeOut corrections q []).1) := by
  -- Along the first loop. The pair that it takes out first is put back last.
  induction corrections generalizing q with
  | nil => rfl
  | cons c older ih =>
      have hlength : older.reverse.length =
          (takeOut older (q - c.rho * dot c.s q * c.y) []).2.length := by
        rw [length_takeOut, List.length_reverse, List.length_nil, Nat.add_zero]
      rw [takeOut, takeOut_append, List.reverse_cons, List.zip_append hlength, putBack_append, ← ih]
      rfl

theorem direction_eq_twoLoops (m : Lbfgs K n) (g : Vector K n) : m.direction g = m.twoLoops g :=
  congrArg (-·) (applyInverse_eq_putBack (scale m.corrections) m.corrections g)

end TwoLoops

section Pairs

variable {K : Type} [Arithmetic K] {n : Nat}

abbrev Pair (K : Type) (n : Nat) : Type :=
  Vector K n × Vector K n

/-- The model after a pair, skipped or not. -/
def learn (m : Lbfgs K n) (p : Pair K n) : Lbfgs K n :=
  (m.update? p.1 p.2).getD m

def curved (pairs : List (Pair K n)) : List (Pair K n) :=
  pairs.filter fun p => decide (minCurvature < dot p.2 p.1)

def correction (p : Pair K n) : Correction K n where
  s := p.1
  y := p.2
  rho := 1.0 / dot p.2 p.1

theorem curved_append (pairs : List (Pair K n)) (p : Pair K n) :
    curved (pairs ++ [p]) =
      if minCurvature < dot p.2 p.1 then curved pairs ++ [p] else curved pairs := by
  rw [curved, List.filter_append, List.filter_singleton, ← curved]
  by_cases h : minCurvature < dot p.2 p.1
  · simp [h]
  · simp [h]

def remembering (memory : Nat) (pairs : List (Pair K n)) : Lbfgs K n where
  memory
  corrections := (pairs.rtake memory).reverse.map correction

theorem learn_remembering_of_curved {memory : Nat} {pairs : List (Pair K n)} {p : Pair K n}
    (h : minCurvature < dot p.2 p.1) :
    learn (remembering memory pairs) p = remembering memory (pairs ++ [p]) := by
  cases memory with
  | zero =>
      rw [learn, update?, if_neg (by simp [remembering])]
      simp [remembering]
  | succ memory =>
      rw [learn, update?, if_pos ⟨h, by simp [remembering]⟩, Option.getD_some]
      have hkept : (p :: pairs.reverse.take (memory + 1)).take (memory + 1) =
          (p :: pairs.reverse).take (memory + 1) := by
        rw [List.take_succ_cons, List.take_succ_cons, List.take_take, Nat.min_eq_left (by omega)]
      simp only [remembering, List.rtake_eq_reverse_take_reverse, List.reverse_reverse,
        List.reverse_append, List.reverse_singleton, List.singleton_append]
      rw [← hkept]
      simp only [List.map_take, List.map_cons]
      rfl

theorem learn_remembering_of_not_curved {memory : Nat} {pairs : List (Pair K n)} {p : Pair K n}
    (h : ¬ minCurvature < dot p.2 p.1) :
    learn (remembering memory pairs) p = remembering memory pairs := by
  rw [learn, update?, if_neg fun hcurved => h hcurved.1, Option.getD_none]

/-- The model keeps the last pairs that were not skipped. -/
theorem foldl_learn (memory : Nat) (pairs : List (Pair K n)) :
    pairs.foldl learn (empty memory) = remembering memory (curved pairs) := by
  induction pairs using List.reverseRecOn with
  | nil => simp [curved, empty, remembering]
  | append_singleton pairs p ih =>
      rw [List.foldl_append, ih, List.foldl_cons, List.foldl_nil, curved_append]
      split
      · next h => exact learn_remembering_of_curved h
      · next h => exact learn_remembering_of_not_curved h

end Pairs

section Dense

variable {K : Type} [Arithmetic K] {n : Nat}

def product (a b : Matrix K n) : Matrix K n :=
  a.map fun row => Vector.ofFn fun j => dot row (b.map fun r => r.get j)

/-- The dense update of an inverse Hessian by a pair, `(I - ρsyᵗ)·H·(I - ρysᵗ) + ρssᵗ`. -/
def bfgs (h : Matrix K n) (p : Pair K n) : Matrix K n :=
  let rho := 1.0 / dot p.2 p.1
  product (product (identity - rho * outer p.1 p.2) h) (identity - rho * outer p.2 p.1)
    + rho * outer p.1 p.1

/-- The scale of the initial matrix, `sᵗy / yᵗy` of the last pair. -/
def lastScale (pairs : List (Pair K n)) : K :=
  match pairs.getLast? with
  | none => 1.0
  | some p => dot p.1 p.2 / dot p.2 p.2

/-- The inverse Hessian that dense updates by these pairs make, the first of them first. -/
def inverseHessian (pairs : List (Pair K n)) : Matrix K n :=
  pairs.foldl bfgs (lastScale pairs * (identity : Matrix K n))

theorem scale_remembering (memory : Nat) (pairs : List (Pair K n)) :
    scale (remembering memory pairs).corrections = lastScale (pairs.rtake memory) := by
  rw [remembering, lastScale]
  generalize pairs.rtake memory = kept
  induction kept using List.reverseRecOn with
  | nil => rfl
  | append_singleton kept p => simp [scale, correction]

end Dense

section Field

variable {K : Type} [Field K] [LinearOrder K] [IsStrictOrderedRing K] {n : Nat}

attribute [local instance] Exact.arithmetic

theorem mulVec_product (a b : Matrix K n) (v : Vector K n) :
    mulVec (product a b) v = mulVec a (mulVec b v) := by
  ext i hi
  simp only [getElem_mulVec, product, Vector.getElem_map, Exact.dot_eq_sum, Vector.get_eq_getElem,
    Vector.getElem_ofFn, Finset.sum_mul, Finset.mul_sum]
  rw [Finset.sum_comm]
  simp only [mul_assoc]

theorem mulVec_bfgs (h : Matrix K n) (p : Pair K n) (q : Vector K n) :
    mulVec (bfgs h p) q =
      let rho := 1.0 / dot p.2 p.1
      let alpha := rho * dot p.1 q
      let r := mulVec h (q - alpha * p.2)
      r + (alpha - rho * dot p.2 r) * p.1 := by
  rw [bfgs]
  generalize 1.0 / dot p.2 p.1 = rho
  have hout : q - rho * (dot p.1 q * p.2) = q - (rho * dot p.1 q) * p.2 := by
    ext i hi
    simp only [Vector.getElem_sub, Vector.getElem_hmul, mul_assoc]
  simp only [Exact.add_mulVec, mulVec_product, Exact.sub_mulVec, Exact.hmul_mulVec,
    Exact.outer_mulVec, Exact.identity_mulVec, hout]
  ext i hi
  simp only [Vector.getElem_add, Vector.getElem_sub, Vector.getElem_hmul]
  ring

theorem applyInverse_correction (gamma : K) (pairs : List (Pair K n)) (q : Vector K n) :
    applyInverse gamma (pairs.reverse.map correction) q =
      mulVec (pairs.foldl bfgs (gamma * (identity : Matrix K n))) q := by
  induction pairs using List.reverseRecOn generalizing q with
  | nil => rw [List.foldl_nil, Exact.hmul_mulVec, Exact.identity_mulVec]; rfl
  | append_singleton pairs p ih =>
      rw [List.foldl_append, List.foldl_cons, List.foldl_nil, mulVec_bfgs]
      dsimp only
      rw [← ih, List.reverse_append]
      rfl

/-- The direction, and what the two loops compute, is that of the dense inverse Hessian. -/
theorem direction_foldl_learn (memory : Nat) (pairs : List (Pair K n)) (g : Vector K n) :
    (pairs.foldl learn (empty memory)).direction g =
        -mulVec (inverseHessian ((curved pairs).rtake memory)) g ∧
      (pairs.foldl learn (empty memory)).twoLoops g =
        -mulVec (inverseHessian ((curved pairs).rtake memory)) g := by
  have hdirection : (pairs.foldl learn (empty memory)).direction g =
      -mulVec (inverseHessian ((curved pairs).rtake memory)) g := by
    rw [foldl_learn, direction, scale_remembering, inverseHessian, ← applyInverse_correction]
    rfl
  exact ⟨hdirection, (direction_eq_twoLoops _ g).symm.trans hdirection⟩

/-- Three pairs, of which the second is skipped and a memory of one keeps the third. -/
def threePairs : List (Pair ℚ 1) :=
  [(#v[1], #v[4]), (#v[1], #v[0]), (#v[1], #v[2])]

theorem direction_foldl_learn_threePairs :
    (curved threePairs).rtake 1 = [(#v[1], #v[2])] ∧
      (threePairs.foldl learn (empty 1)).direction #v[3] =
        -mulVec (inverseHessian [(#v[1], #v[2])]) #v[3] ∧
      (threePairs.foldl learn (empty 1)).twoLoops #v[3] =
        -mulVec (inverseHessian [(#v[1], #v[2])]) #v[3] := by
  have hkept : (curved threePairs).rtake 1 = [(#v[1], #v[2])] := by
    norm_num [curved, threePairs, Exact.dot_eq_sum, minCurvature, List.rtake]
  have h := direction_foldl_learn 1 threePairs #v[3]
  rw [hkept] at h
  exact ⟨hkept, h⟩

end Field

end LocalOptimization.Lbfgs
