import Mathlib
import LocalOptimization.Proofs.LineSearch.Ray
import LocalOptimization.Proofs.LineSearch.Visits

/-!
# The first sufficient decrease

Backtracking tries the step lengths of a geometric sequence and hands back the first that decreases
the objective sufficiently, or else the last. Where the objective falls along the ray at its start,
short steps decrease it sufficiently, and the sequence comes to one.
-/

namespace LocalOptimization.LineSearch.Backtracking

open Filter Topology

section Trials

variable {K : Type} [Scalar K] {n : Nat} {ε : Type}
variable {c : Backtracking K} {f : Objective K n ε} {r : Ray K n} {alpha a : K}
  {steps : List (Step K n)} {s : Step K n}

/-- The step length after so many trials that were not enough. -/
def stepLength (c : Backtracking K) (alpha : K) (rejected : Nat) : K :=
  (· * c.shrink)^[rejected] alpha

/-- The value at step length `a` is finite and decreases the objective sufficiently. -/
def AcceptsAt (c : Backtracking K) (f : Objective K n ε) (r : Ray K n) (a : K) : Prop :=
  ∃ v, f.value (r.point a) = .ok v ∧ f.isFiniteAt (r.point a) v = true ∧
    v ≤ r.value + c.c1 * a * r.slope

/-- The step is the trial after `k` others: it has the length of that trial and the value there. -/
structure IsTrial (c : Backtracking K) (f : Objective K n ε) (r : Ray K n) (a : K) (k : Nat)
    (s : Step K n) : Prop where
  alpha : s.alpha = c.stepLength a k
  value : f.value (r.point (c.stepLength a k)) = .ok s.value
  evaluations : s.evaluations = k + 1

theorem stepLength_succ (c : Backtracking K) (alpha : K) (k : Nat) :
    c.stepLength alpha (k + 1) = c.stepLength alpha k * c.shrink :=
  Function.iterate_succ_apply' _ _ _

theorem isTrial_of_trial {k : Nat} (h : c.trial f r k (c.stepLength alpha k) = .ok s) :
    c.IsTrial f r alpha k s ∧
      (s.satisfied = true ↔ c.AcceptsAt f r (c.stepLength alpha k)) := by
  obtain ⟨value, hvalue, h⟩ := Except.bind_eq_ok_iff.mp h
  cases h
  refine ⟨⟨rfl, hvalue, rfl⟩, ?_⟩
  rw [Bool.and_eq_true, accepts, decide_eq_true_eq]
  constructor
  · exact fun haccepted => ⟨value, hvalue, haccepted⟩
  · rintro ⟨v, hv, haccepted⟩
    obtain rfl := Except.ok.inj (hvalue.symm.trans hv)
    exact haccepted

theorem rejects_of_visits (visits : Visits (c.trial f r) (fun a _ => a * c.shrink) alpha steps a) :
    a = c.stepLength alpha steps.length ∧
      ∀ j < steps.length, ¬ c.AcceptsAt f r (c.stepLength alpha j) := by
  induction visits with
  | start => exact ⟨rfl, by simp⟩
  | next _ htrial hunsatisfied ih =>
      obtain ⟨rfl, hbefore⟩ := ih
      obtain ⟨-, hiff⟩ := isTrial_of_trial htrial
      rw [List.length_append, List.length_singleton]
      refine ⟨(c.stepLength_succ _ _).symm, fun j hj => ?_⟩
      rcases Nat.lt_succ_iff_lt_or_eq.mp hj with hearlier | rfl
      · exact hbefore j hearlier
      · rw [← hiff, hunsatisfied]
        exact Bool.false_ne_true

theorem exists_trial_of_search (hbudget : 1 ≤ c.maxIters)
    (values : ∀ k < c.maxIters, ∃ v, f.value (r.point (c.stepLength alpha k)) = .ok v) :
    ∃ k < c.maxIters, ∃ s, c.search f r alpha = .ok s ∧ c.IsTrial f r alpha k s ∧
      (s.satisfied = true ↔ c.AcceptsAt f r (c.stepLength alpha k)) ∧
      (∀ j < k, ¬ c.AcceptsAt f r (c.stepLength alpha j)) ∧
      (s.satisfied = false → k + 1 = c.maxIters) := by
  rw [search_eq_map_collect]
  have hends := ends_collect (c.trial f r) (fun a _ => a * c.shrink) alpha c.maxIters
  generalize collect (c.trial f r) (fun a _ => a * c.shrink) c.maxIters 0 alpha = result at hends
  cases hends with
  | failed visits hallowed htrial =>
      obtain ⟨rfl, -⟩ := rejects_of_visits visits
      obtain ⟨v, hv⟩ := values _ hallowed
      rw [trial, hv] at htrial
      cases htrial
  | satisfied visits hallowed htrial hsatisfied =>
      obtain ⟨rfl, hbefore⟩ := rejects_of_visits visits
      obtain ⟨isTrial, hiff⟩ := isTrial_of_trial htrial
      refine ⟨_, hallowed, _, ?_, isTrial, hiff, hbefore, by simp [hsatisfied]⟩
      rw [Except.map, List.foldl_concat]
      rfl
  | exhausted visits hlength =>
      cases visits with
      | start =>
          rw [List.length_nil] at hlength
          omega
      | next visits htrial hunsatisfied =>
          obtain ⟨rfl, hbefore⟩ := rejects_of_visits visits
          obtain ⟨isTrial, hiff⟩ := isTrial_of_trial htrial
          rw [List.length_append, List.length_singleton] at hlength
          refine ⟨_, by omega, _, ?_, isTrial, hiff, hbefore, fun _ => hlength⟩
          rw [Except.map, List.foldl_concat]
          rfl

theorem exists_satisfied_of_acceptsAt
    (values : ∀ k < c.maxIters, ∃ v, f.value (r.point (c.stepLength alpha k)) = .ok v) {k : Nat}
    (hk : k < c.maxIters) (haccepts : c.AcceptsAt f r (c.stepLength alpha k)) :
    ∃ j ≤ k, ∃ s, c.search f r alpha = .ok s ∧ s.satisfied = true ∧ c.IsTrial f r alpha j s ∧
      c.AcceptsAt f r (c.stepLength alpha j) := by
  obtain ⟨j, hj, s, hsearch, isTrial, hiff, hbefore, hlast⟩ :=
    exists_trial_of_search (by omega) values
  have hjk : j ≤ k := not_lt.mp fun hlt => hbefore k hlt haccepts
  have hsatisfied : s.satisfied = true := by
    by_contra hunsatisfied
    rw [Bool.not_eq_true] at hunsatisfied
    have hcount := hlast hunsatisfied
    obtain rfl : j = k := by omega
    rw [hiff.mpr haccepts] at hunsatisfied
    cases hunsatisfied
  exact ⟨j, hjk, s, hsearch, hsatisfied, isTrial, hiff.mp hsatisfied⟩

end Trials

section Descent

variable {n : Nat} {ε : Type} {c : Backtracking ℝ} {f : Objective ℝ n ε} {r : Ray ℝ n}
  {phi : ℝ → ℝ} {alpha : ℝ}

/-- Along the ray the objective is the function `phi` of the step length. It is defined close to the
start, and falls there with the slope of the ray. -/
structure Descends (f : Objective ℝ n ε) (r : Ray ℝ n) (phi : ℝ → ℝ) : Prop
    extends Follows f r phi where
  domain : ∀ᶠ a in 𝓝[>] 0, f.domain (r.point a) = true
  derivative : HasDerivWithinAt phi r.slope (Set.Ici 0) 0
  descent : r.slope < 0

theorem stepLength_eq (c : Backtracking ℝ) (alpha : ℝ) (k : Nat) :
    c.stepLength alpha k = alpha * c.shrink ^ k := by
  induction k with
  | zero => rw [pow_zero, mul_one]; rfl
  | succ k ih => rw [stepLength_succ, ih, pow_succ, mul_assoc]

theorem tendsto_stepLength (halpha : 0 < alpha) (hshrink : 0 < c.shrink) (hlt : c.shrink < 1) :
    Tendsto (c.stepLength alpha) atTop (𝓝[>] 0) := by
  rw [tendsto_nhdsWithin_iff]
  constructor
  · have hpow := (tendsto_pow_atTop_nhds_zero_of_lt_one (le_of_lt hshrink) hlt).const_mul alpha
    rw [mul_zero] at hpow
    exact hpow.congr fun k => (c.stepLength_eq alpha k).symm
  · refine Eventually.of_forall fun k => ?_
    rw [stepLength_eq, Set.mem_Ioi]
    positivity

theorem Descends.eventually_acceptsAt (descends : Descends f r phi) (hc1 : c.c1 < 1) :
    ∀ᶠ a in 𝓝[>] 0, c.AcceptsAt f r a := by
  have hsteeper : r.slope < c.c1 * r.slope := by
    have hdescent := descends.descent
    nlinarith
  have hslope := (hasDerivWithinAt_iff_tendsto_slope' (by simp)).mp
    (descends.derivative.mono Set.Ioi_subset_Ici_self)
  filter_upwards [hslope.eventually (gt_mem_nhds hsteeper), descends.domain,
    self_mem_nhdsWithin] with a hbelow hdomain hpos
  rw [Set.mem_Ioi] at hpos
  refine ⟨phi a, descends.value a (le_of_lt hpos), by simp [Objective.isFiniteAt, hdomain,
    Exact.isFinite], ?_⟩
  rw [slope_def_field, sub_zero, div_lt_iff₀ hpos, descends.phi_zero] at hbelow
  linarith

theorem Descends.exists_satisfied (descends : Descends f r phi) (halpha : 0 < alpha)
    (hc1 : c.c1 < 1) (hshrink : 0 < c.shrink) (hlt : c.shrink < 1) :
    ∃ least, ∀ budget, least ≤ budget →
      ∃ s, search { c with maxIters := budget } f r alpha = .ok s ∧ s.satisfied = true := by
  have haccepts := (tendsto_stepLength halpha hshrink hlt).eventually
    (descends.eventually_acceptsAt hc1)
  obtain ⟨k, hk⟩ := haccepts.exists
  refine ⟨k + 1, fun budget hbudget => ?_⟩
  have values : ∀ j < budget, ∃ v, f.value (r.point (c.stepLength alpha j)) = .ok v := by
    intro j _
    have hnonneg : 0 ≤ c.stepLength alpha j := by
      rw [stepLength_eq]
      positivity
    exact ⟨_, descends.value _ hnonneg⟩
  obtain ⟨j, -, s, hsearch, hsatisfied, -⟩ :=
    exists_satisfied_of_acceptsAt (c := { c with maxIters := budget }) values hbudget hk
  exact ⟨s, hsearch, hsatisfied⟩

end Descent

/-- Backtracking hands back the first trial that decreases the objective sufficiently, or else its
last one. In exact arithmetic it comes to such a trial wherever the objective falls along the ray at
its start. -/
theorem hands_back_first {n : Nat} {ε : Type} :
    (∀ {K : Type} [Scalar K] {c : Backtracking K} {f : Objective K n ε} {r : Ray K n} {alpha : K},
      1 ≤ c.maxIters →
      (∀ k < c.maxIters, ∃ v, f.value (r.point (c.stepLength alpha k)) = .ok v) →
      (∀ k < c.maxIters, c.AcceptsAt f r (c.stepLength alpha k) →
        (∀ j < k, ¬ c.AcceptsAt f r (c.stepLength alpha j)) →
        ∃ s, c.search f r alpha = .ok s ∧ s.satisfied = true ∧ c.IsTrial f r alpha k s) ∧
      ((∀ k < c.maxIters, ¬ c.AcceptsAt f r (c.stepLength alpha k)) →
        ∃ s, c.search f r alpha = .ok s ∧ s.satisfied = false ∧
          c.IsTrial f r alpha (c.maxIters - 1) s)) ∧
    ∀ {c : Backtracking ℝ} {f : Objective ℝ n ε} {r : Ray ℝ n} {phi : ℝ → ℝ} {alpha : ℝ},
      Descends f r phi → 0 < alpha → c.c1 < 1 → 0 < c.shrink → c.shrink < 1 →
      ∃ least, ∀ budget, least ≤ budget →
        ∃ s, search { c with maxIters := budget } f r alpha = .ok s ∧ s.satisfied = true := by
  refine ⟨?_, fun descends halpha hc1 hshrink hlt =>
    descends.exists_satisfied halpha hc1 hshrink hlt⟩
  intro K _ c f r alpha hbudget values
  constructor
  · intro k hk haccepts hrejects
    obtain ⟨j, hjk, s, hsearch, hsatisfied, isTrial, hj⟩ :=
      exists_satisfied_of_acceptsAt values hk haccepts
    obtain rfl := le_antisymm hjk (not_lt.mp fun hlt => hrejects j hlt hj)
    exact ⟨s, hsearch, hsatisfied, isTrial⟩
  · intro hrejects
    obtain ⟨k, hk, s, hsearch, isTrial, hiff, -, hlast⟩ := exists_trial_of_search hbudget values
    have hunsatisfied : s.satisfied = false := by
      rw [← Bool.not_eq_true, hiff]
      exact hrejects k hk
    obtain rfl : k = c.maxIters - 1 := by
      have hcount := hlast hunsatisfied
      omega
    exact ⟨s, hsearch, hunsatisfied, isTrial⟩

section Example

/-- The direction of steepest descent of the square at 1. -/
def downhill : Ray Float 1 where
  x := .ofFn ![1.0]
  value := 1.0
  gradient := .ofFn ![2.0]
  direction := .ofFn ![-2.0]

theorem hands_back_first_square :
    (∃ s, search {} square downhill 1.0 = .ok s ∧ s.satisfied = true ∧
      IsTrial {} square downhill 1.0 1 s) ∧
    (∃ s, search { maxIters := 1 } square downhill 1.0 = .ok s ∧ s.satisfied = false ∧
      IsTrial { maxIters := 1 } square downhill 1.0 0 s) ∧
    ∃ least, ∀ budget, least ≤ budget →
      ∃ s, search { maxIters := budget } realSquare steepestRay 1 = .ok s ∧
        s.satisfied = true := by
  have hfirst : ¬ AcceptsAt {} square downhill (stepLength {} 1.0 0) := by
    rintro ⟨v, hv, -, hle⟩
    cases hv
    revert hle
    decide +kernel
  have hsecond : AcceptsAt {} square downhill (stepLength {} 1.0 1) :=
    ⟨_, rfl, by decide +kernel, by decide +kernel⟩
  refine ⟨?_, ?_, ?_⟩
  · refine (hands_back_first.1 (by decide) fun k _ => ⟨_, rfl⟩).1 1 (by decide) hsecond ?_
    intro j hj
    obtain rfl := Nat.lt_one_iff.mp hj
    exact hfirst
  · apply (hands_back_first.1 (by decide) fun k _ => ⟨_, rfl⟩).2
    intro k hk
    obtain rfl := Nat.lt_one_iff.mp hk
    exact hfirst
  · refine hands_back_first.2 (c := {}) ⟨smooth_realSquare.toFollows, ?_, ?_, ?_⟩ ?_ ?_ ?_ ?_
    · exact Eventually.of_forall fun _ => rfl
    · rw [← smooth_realSquare.slope_zero]
      exact smooth_realSquare.derivative 0 (le_refl 0)
    · rw [slope_steepestRay]
      norm_num
    all_goals norm_num

end Example

end LocalOptimization.LineSearch.Backtracking
