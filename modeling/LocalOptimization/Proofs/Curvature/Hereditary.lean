import Mathlib
import LocalOptimization.Proofs.Curvature.SecantEquation
import LocalOptimization.Proofs.Elimination.Perturbation
import LocalOptimization.Proofs.Euclidean

/-!
# Quadratic functions are learned exactly

Along the steps of a quadratic function the gradient changes by the image of the step under the
Hessian. A symmetric rank-one model that takes such a step in agrees with the Hessian on it, and
every later update is orthogonal to it, so the model agrees with the Hessian on all the steps that
it has taken in. Once these span the space, there is nothing left to learn.
-/

namespace LocalOptimization.SymmetricRankOne

variable {n : Nat} {a : Matrix ℝ n} {m m' : SymmetricRankOne ℝ n} {s v : Vector ℝ n}

/-- The model after a step of a quadratic function with Hessian `a`. -/
noncomputable def train (a : Matrix ℝ n) (m : SymmetricRankOne ℝ n) (s : Vector ℝ n) :
    SymmetricRankOne ℝ n :=
  offer update? m (s, mulVec a s)

/-- The model after a sequence of steps. -/
noncomputable def trained (a : Matrix ℝ n) (steps : List (Vector ℝ n)) : SymmetricRankOne ℝ n :=
  steps.foldl (train a) .initial

/-- The model that has gone through the steps has taken this one in. -/
def TookIn (a : Matrix ℝ n) (steps : List (Vector ℝ n)) (s : Vector ℝ n) : Prop :=
  ∃ before after, steps = before ++ s :: after ∧
    (trained a before).update? s (mulVec a s) ≠ none

section Hereditary

theorem hessian_of_update {y : Vector ℝ n} (h : m.update? s y = some m') :
    m'.hessian = m.hessian + (1 / dot (y - mulVec m.hessian s) s) *
      outer (y - mulVec m.hessian s) (y - mulVec m.hessian s) := by
  rw [update?, Exact.one_eq] at h
  split at h <;> cases h
  rfl

/-- The model is symmetric, and agrees with `a` on the vector. -/
structure Agrees (a : Matrix ℝ n) (v : Vector ℝ n) (m : SymmetricRankOne ℝ n) : Prop where
  symmetric : Exact.IsSymmetric m.hessian
  mulVec_eq : mulVec m.hessian v = mulVec a v

theorem Agrees.dot_residual (symmetric : Exact.IsSymmetric a) (agrees : Agrees a v m)
    (s : Vector ℝ n) : dot (mulVec a s - mulVec m.hessian s) v = 0 := by
  calc
    dot (mulVec a s - mulVec m.hessian s) v = dot s (mulVec a v) - dot s (mulVec m.hessian v) := by
      rw [Exact.sub_dot, Exact.dot_comm (mulVec a s), Exact.dot_comm (mulVec m.hessian s),
        Exact.dot_mulVec_comm symmetric v s, Exact.dot_mulVec_comm agrees.symmetric v s]
    _ = 0 := by rw [agrees.mulVec_eq, sub_self]

theorem Agrees.train (symmetric : Exact.IsSymmetric a) (agrees : Agrees a v m) (s : Vector ℝ n) :
    Agrees a v (m.train a s) := by
  rw [SymmetricRankOne.train, offer]
  cases h : m.update? s (mulVec a s) with
  | none => exact agrees
  | some m' =>
      refine ⟨isSymmetric_of_update agrees.symmetric h, ?_⟩
      rw [Option.getD_some, hessian_of_update h, Exact.add_mulVec, Exact.hmul_mulVec,
        Exact.outer_mulVec, agrees.dot_residual symmetric, agrees.mulVec_eq]
      ext i hi
      simp

theorem Agrees.foldl_train (symmetric : Exact.IsSymmetric a) (agrees : Agrees a v m)
    (steps : List (Vector ℝ n)) : Agrees a v (steps.foldl (SymmetricRankOne.train a) m) := by
  induction steps generalizing m with
  | nil => exact agrees
  | cons s steps ih => exact ih (agrees.train symmetric s)

theorem isSymmetric_trained (a : Matrix ℝ n) (steps : List (Vector ℝ n)) :
    Exact.IsSymmetric (trained a steps).hessian := by
  have h : Exact.IsSymmetric
      ((steps.map fun s => (s, mulVec a s)).foldl (offer update?) .initial).hessian :=
    foldl_offer_induction (P := fun m => Exact.IsSymmetric m.hessian) Exact.isSymmetric_identity
      (fun _ _ _ _ symmetric h => isSymmetric_of_update symmetric h) _
  rwa [List.foldl_map] at h

theorem TookIn.agrees {steps : List (Vector ℝ n)} (symmetric : Exact.IsSymmetric a)
    (h : TookIn a steps s) : Agrees a s (trained a steps) := by
  obtain ⟨before, after, rfl, htaken⟩ := h
  obtain ⟨m', hm'⟩ := Option.ne_none_iff_exists'.mp htaken
  have agrees : Agrees a s m' :=
    ⟨isSymmetric_of_update (isSymmetric_trained a before) hm', mulVec_of_update hm'⟩
  have hafter : trained a (before ++ s :: after) = after.foldl (SymmetricRankOne.train a) m' := by
    rw [trained, List.foldl_append, List.foldl_cons]
    refine congrArg (after.foldl _) ?_
    change offer update? (trained a before) (s, mulVec a s) = m'
    rw [offer, hm', Option.getD_some]
  rw [hafter]
  exact agrees.foldl_train symmetric after

theorem update_eq_none_of_mulVec_eq (h : mulVec m.hessian s = mulVec a s) :
    m.update? s (mulVec a s) = none := by
  have hresidual : mulVec a s - mulVec m.hessian s = zeros := by
    rw [h]
    ext i hi
    simp [Exact.zero_eq]
  rw [update_eq_none_iff, hresidual, Exact.zeros_dot, Exact.norm_zeros]
  simp

theorem TookIn.append {steps : List (Vector ℝ n)} (h : TookIn a steps s)
    (later : List (Vector ℝ n)) : TookIn a (steps ++ later) s := by
  obtain ⟨before, after, rfl, htaken⟩ := h
  exact ⟨before, after ++ later, by simp, htaken⟩

end Hereditary

section Spanning

/-- The steps that the model has taken in span the space. -/
def Explored (a : Matrix ℝ n) (steps : List (Vector ℝ n)) : Prop :=
  Submodule.span ℝ (Exact.toEuclidean '' {s | TookIn a steps s}) = ⊤

theorem Explored.append {steps : List (Vector ℝ n)} (explored : Explored a steps)
    (later : List (Vector ℝ n)) : Explored a (steps ++ later) := by
  apply top_le_iff.mp
  rw [← show _ = ⊤ from explored]
  apply Submodule.span_mono
  apply Set.image_mono
  intro s h
  exact h.append later

theorem eq_of_span {b : Matrix ℝ n} {S : Set (Vector ℝ n)}
    (hspan : Submodule.span ℝ (Exact.toEuclidean '' S) = ⊤)
    (h : ∀ s ∈ S, mulVec a s = mulVec b s) : a = b := by
  apply Vector.ext
  intro i hi
  by_contra hne
  let d := a[i] - b[i]
  have hd : d ≠ zeros := by
    intro hzero
    apply hne
    ext j hj
    have hentry : d[j] = (0 : ℝ) := by rw [hzero, getElem_zeros, Exact.zero_eq]
    exact sub_eq_zero.mp ((Vector.getElem_sub ..).symm.trans hentry)
  have hker : (⊤ : Submodule ℝ (EuclideanSpace ℝ (Fin n))) ≤
      LinearMap.ker (innerₛₗ ℝ (Exact.toEuclidean d)) := by
    rw [← hspan, Submodule.span_le]
    rintro _ ⟨s, hs, rfl⟩
    have hrow : dot a[i] s = dot b[i] s := by
      rw [← getElem_mulVec, ← getElem_mulVec, h s hs]
    change inner ℝ (Exact.toEuclidean d) (Exact.toEuclidean s) = 0
    rw [Exact.inner_toEuclidean, Exact.dot_sub, Exact.dot_comm s, Exact.dot_comm s, hrow, sub_self]
  have hself : inner ℝ (Exact.toEuclidean d) (Exact.toEuclidean d) = 0 :=
    hker (Submodule.mem_top (x := Exact.toEuclidean d))
  rw [Exact.inner_toEuclidean] at hself
  exact (Exact.dot_self_pos hd).ne' hself

theorem Explored.hessian_eq {steps : List (Vector ℝ n)} (symmetric : Exact.IsSymmetric a)
    (explored : Explored a steps) : (trained a steps).hessian = a :=
  eq_of_span explored fun _ h => (TookIn.agrees symmetric h).mulVec_eq

theorem direction_of_regular {g z : Vector ℝ n}
    (hregular : (solveLinear m.hessian g).isRegular = true) (hz : mulVec m.hessian z = g)
    (hdescends : 0 < dot g z) : m.direction g = -z := by
  have hnewton := isRegular_solveLinear_congr (-g) hregular
  have hx : (solveLinear m.hessian (-g)).x = -z := by
    symm
    rw [← Exact.mulVec_eq_iff_of_isRegular hnewton, Exact.mulVec_neg, hz]
  rw [direction, hnewton, hx, Bool.true_and, if_pos]
  rw [decide_eq_true_iff, Exact.dot_neg, Exact.zero_eq]
  exact neg_lt_zero.mpr hdescends

end Spanning

/-- Whatever steps of a quadratic function it was offered, a symmetric rank-one model agrees with
the Hessian on those that it has taken in. Once they span the space the model is the Hessian, it
skips all further steps, and it proposes the Newton step where elimination replaces no pivot and
that step descends. -/
theorem learns_quadratic (a : Matrix ℝ n) (symmetric : Exact.IsSymmetric a)
    (steps : List (Vector ℝ n)) :
    (∀ s, TookIn a steps s → mulVec (trained a steps).hessian s = mulVec a s) ∧
    (Explored a steps →
      (trained a steps).hessian = a ∧
      (∀ later s, (trained a (steps ++ later)).update? s (mulVec a s) = none) ∧
      ∀ g, (solveLinear a g).isRegular = true →
        ∃ z, (∀ v, mulVec a v = g ↔ v = z) ∧
          (0 < dot g z → (trained a steps).direction g = -z)) := by
  constructor
  · intro s h
    exact (h.agrees symmetric).mulVec_eq
  · intro explored
    have hhessian := explored.hessian_eq symmetric
    refine ⟨hhessian, ?_, ?_⟩
    · intro later s
      apply update_eq_none_of_mulVec_eq
      rw [(explored.append later).hessian_eq symmetric]
    · intro g hregular
      refine ⟨(solveLinear a g).x, fun v => Exact.mulVec_eq_iff_of_isRegular hregular, ?_⟩
      intro hdescends
      apply direction_of_regular _ _ hdescends
      · rwa [hhessian]
      · rw [hhessian, Exact.mulVec_solveLinear hregular]

section Example

/-- The Hessian of a quadratic function of two variables. -/
noncomputable def bent : Matrix ℝ 2 :=
  identity + outer (.replicate 2 1) (.replicate 2 1) + outer #v[0, 1] #v[0, 1]

theorem bent_eq : bent = #v[#v[2, 1], #v[1, 3]] := by
  ext i hi j hj
  interval_cases i <;> interval_cases j <;> norm_num [bent]

theorem isSymmetric_bent : Exact.IsSymmetric bent :=
  (Exact.isSymmetric_identity.add (Exact.isSymmetric_outer _)).add (Exact.isSymmetric_outer _)

theorem isRegular_bent : (solveLinear bent #v[3, 4]).isRegular = true := by
  apply Exact.isRegular_two <;> norm_num [bent_eq, Vector.get_eq_getElem]

theorem update_of_residual {r : Vector ℝ n} (hresidual : mulVec a s - mulVec m.hessian s = r)
    (hunit : dot r s = 1) (hr : dot r r ≤ 2 * 2) (hs : dot s s ≤ 2 * 2) :
    ∃ m', m.update? s (mulVec a s) = some m' ∧ m'.hessian = m.hessian + outer r r := by
  have hsmall : 1e-8 * norm r * norm s < 1 := by
    have hnorm : norm r * norm s ≤ 2 * 2 :=
      mul_le_mul ((Exact.norm_le_iff zero_le_two).mpr hr) ((Exact.norm_le_iff zero_le_two).mpr hs)
        (Exact.norm_nonneg s) zero_le_two
    calc
      1e-8 * norm r * norm s = 1e-8 * (norm r * norm s) := mul_assoc _ _ _
      _ ≤ 1e-8 * (2 * 2) := by gcongr
      _ < 1 := by norm_num
  have htaken : m.update? s (mulVec a s) ≠ none := by
    rw [Ne, update_eq_none_iff, hresidual, hunit, abs_one, not_le]
    exact hsmall
  obtain ⟨m', h⟩ := Option.ne_none_iff_exists'.mp htaken
  refine ⟨m', h, ?_⟩
  rw [hessian_of_update h, hresidual, hunit]
  ext i hi j hj
  simp

theorem hessian_trained_first :
    (trained bent [#v[1, 0]]).hessian = identity + outer #v[1, 1] #v[1, 1] ∧
      TookIn bent [#v[1, 0]] #v[1, 0] := by
  obtain ⟨m', h, hhessian⟩ := update_of_residual (a := bent) (m := .initial) (s := #v[1, 0])
    (r := #v[1, 1])
    (by
      ext i hi
      interval_cases i <;> norm_num [bent_eq, Exact.dot_two, SymmetricRankOne.initial])
    (by norm_num [Exact.dot_two]) (by norm_num [Exact.dot_two]) (by norm_num [Exact.dot_two])
  refine ⟨?_, [], [], rfl, ?_⟩
  · rw [trained, List.foldl_cons, List.foldl_nil, train, offer, h]
    exact hhessian
  · exact ne_of_eq_of_ne h (Option.some_ne_none _)

theorem update_repeated :
    (trained bent [#v[1, 0]]).update? #v[1, 0] (mulVec bent #v[1, 0]) = none :=
  update_eq_none_of_mulVec_eq (hessian_trained_first.2.agrees isSymmetric_bent).mulVec_eq

theorem trained_repeated : trained bent [#v[1, 0], #v[1, 0]] = trained bent [#v[1, 0]] := by
  change (trained bent [#v[1, 0]]).train bent #v[1, 0] = trained bent [#v[1, 0]]
  rw [train, offer, update_repeated, Option.getD_none]

theorem tookIn_last : TookIn bent [#v[1, 0], #v[1, 0], #v[0, 1]] #v[0, 1] := by
  refine ⟨[#v[1, 0], #v[1, 0]], [], rfl, ?_⟩
  rw [trained_repeated]
  obtain ⟨m', h, -⟩ := update_of_residual (a := bent) (m := trained bent [#v[1, 0]])
    (s := #v[0, 1]) (r := #v[0, 1])
    (by
      rw [hessian_trained_first.1]
      ext i hi
      interval_cases i <;> norm_num [bent_eq, Exact.dot_two])
    (by norm_num [Exact.dot_two]) (by norm_num [Exact.dot_two]) (by norm_num [Exact.dot_two])
  exact ne_of_eq_of_ne h (Option.some_ne_none _)

theorem explored_bent : Explored bent [#v[1, 0], #v[1, 0], #v[0, 1]] := by
  have hfirst : TookIn bent [#v[1, 0], #v[1, 0], #v[0, 1]] #v[1, 0] :=
    hessian_trained_first.2.append [#v[1, 0], #v[0, 1]]
  apply top_le_iff.mp
  intro y _
  have hy : y = y 0 • Exact.toEuclidean #v[1, 0] + y 1 • Exact.toEuclidean #v[0, 1] := by
    ext i
    fin_cases i <;> simp [Exact.toEuclidean, Vector.get_eq_getElem]
  rw [hy]
  exact add_mem (Submodule.smul_mem _ _ (Submodule.subset_span ⟨_, hfirst, rfl⟩))
    (Submodule.smul_mem _ _ (Submodule.subset_span ⟨_, tookIn_last, rfl⟩))

theorem learns_quadratic_bent :
    (trained bent [#v[1, 0], #v[1, 0], #v[0, 1]]).hessian = bent ∧
      (trained bent [#v[1, 0]]).update? #v[1, 0] (mulVec bent #v[1, 0]) = none ∧
      (trained bent [#v[1, 0], #v[1, 0], #v[0, 1]]).update? #v[1, 1] (mulVec bent #v[1, 1]) =
        none ∧
      (solveLinear bent #v[3, 4]).isRegular = true ∧
      (trained bent [#v[1, 0], #v[1, 0], #v[0, 1]]).direction #v[3, 4] = -#v[1, 1] := by
  obtain ⟨-, hlearned⟩ := learns_quadratic bent isSymmetric_bent [#v[1, 0], #v[1, 0], #v[0, 1]]
  obtain ⟨hhessian, hskips, hnewton⟩ := hlearned explored_bent
  obtain ⟨z, hz, hdirection⟩ := hnewton #v[3, 4] isRegular_bent
  have hsolution : #v[1, 1] = z := by
    rw [← hz, bent_eq]
    ext i hi
    interval_cases i <;> norm_num [Exact.dot_two]
  subst hsolution
  exact ⟨hhessian, update_repeated, hskips [] #v[1, 1], isRegular_bent,
    hdirection (by norm_num [Exact.dot_two])⟩

end Example

end LocalOptimization.SymmetricRankOne
