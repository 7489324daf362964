import LocalOptimization.Proofs.LineSearch.Bracket

/-!
# Steps that make progress

A step that satisfies its search or decreases the objective is one of the trials that the search has
made. Where nothing is rounded all trials have positive lengths. In a direction of descent such a
step then decreases the objective, but for the slack that the strong Wolfe search grants.
-/

namespace LocalOptimization.LineSearch

open StrongWolfe (Bracket Memory slack slack_nonneg)

section Parameters

variable {K : Type} [Scalar K]

theorem Backtracking.validate_eq_ok_iff {c : Backtracking K} :
    c.validate = .ok () ↔ Scalar.inOpenUnit c.c1 = true ∧ Scalar.inOpenUnit c.shrink = true ∧
      c.maxIters ≠ 0 := by
  rw [validate]
  cases Scalar.inOpenUnit c.c1 <;> cases Scalar.inOpenUnit c.shrink <;> simp

theorem StrongWolfe.validate_eq_ok_iff {c : StrongWolfe K} :
    c.validate = .ok () ↔ Scalar.inOpenUnit c.c1 = true ∧ Scalar.inOpenUnit c.c2 = true ∧
      ¬ c.c2 ≤ c.c1 ∧ c.maxIters ≠ 0 := by
  rw [validate]
  cases Scalar.inOpenUnit c.c1 <;> cases Scalar.inOpenUnit c.c2 <;>
    by_cases horder : c.c2 ≤ c.c1 <;> simp [horder]

end Parameters

section Taken

variable {K : Type} [Scalar K] [OrderedScalar K] {n : Nat} {ε : Type}
variable {l : LineSearch K} {f : Objective K n ε} {r : Ray K n} {alpha v : K}
  {steps : List (Step K n)} {s : Step K n}

theorem exists_mem_select (h : l.attempts f r alpha = .ok steps) (hne : steps ≠ []) :
    ∃ t ∈ steps, ∃ k, l.select alpha steps = { t with evaluations := k } := by
  have hlast := Memory.last_foldl_add (Memory.start alpha) hne
  cases l with
  | backtracking c => exact ⟨steps.getLast hne, List.getLast_mem hne, _, hlast⟩
  | strongWolfe c =>
      rw [select, Memory.select, hlast]
      split
      · exact ⟨steps.getLast hne, List.getLast_mem hne, (steps.getLast hne).evaluations, rfl⟩
      · refine ⟨_, (isLeast_of_attempts h).getD_mem hne, (steps.getLast hne).evaluations, ?_⟩
        rw [Memory.handBack, hlast]

theorem exists_mem_of_accepted (h : l.attempts f r alpha = .ok steps)
    (accepted : ((l.select alpha steps).satisfied || (l.select alpha steps).decreases v) = true) :
    ∃ t ∈ steps, ∃ k, l.select alpha steps = { t with evaluations := k } := by
  apply exists_mem_select h
  rintro rfl
  cases l <;> cases accepted

end Taken

section Exact

variable {n : Nat} {ε : Type} {l : LineSearch ℝ} {f : Objective ℝ n ε} {r : Ray ℝ n} {alpha : ℝ}
  {steps : List (Step ℝ n)} {s : Step ℝ n}

theorem alpha_pos_of_mem_attempts (hvalid : l.validate = .ok ()) (halpha : 0 < alpha)
    (h : l.attempts f r alpha = .ok steps) : ∀ s ∈ steps, 0 < s.alpha := by
  cases l with
  | backtracking c =>
      have hshrink := (Backtracking.validate_eq_ok_iff.mp hvalid).2.1
      rw [Exact.inOpenUnit_iff] at hshrink
      refine forall_mem_of_collect_of_invariant (I := fun a => 0 < a) ?_ halpha h
      intro done a s ha htrial
      obtain ⟨value, -, htrial⟩ := Except.bind_eq_ok_iff.mp htrial
      cases htrial
      exact ⟨ha, mul_pos ha hshrink.1⟩
  | strongWolfe c =>
      refine forall_mem_of_collect_of_invariant (I := Bracket.Ordered) ?_
        (Bracket.ordered_start halpha) h
      intro done b s ordered htrial
      obtain ⟨hs, -⟩ := StrongWolfe.trial_cases htrial
      exact ⟨hs ▸ ordered.alpha_pos, ordered.next r s⟩

/-- What a step that is taken does to the objective. A strong Wolfe search that is satisfied grants
a slack. -/
def Improves (l : LineSearch ℝ) (r : Ray ℝ n) (s : Step ℝ n) : Prop :=
  match l with
  | backtracking c =>
      s.value < r.value ∧ (s.satisfied = true → s.value ≤ r.value + c.c1 * s.alpha * r.slope)
  | strongWolfe _ =>
      s.value ≤ r.value + slack r ∧ (s.satisfied = false → s.value < r.value)

theorem lt_of_decreases {v : ℝ} (h : s.decreases v = true) : s.value < v :=
  of_decide_eq_true (Bool.and_eq_true_iff.mp h).2

theorem predicted_neg {c1 a : ℝ} (hc1 : Scalar.inOpenUnit c1 = true) (ha : 0 < a)
    (descent : r.slope < 0) : c1 * a * r.slope < 0 :=
  mul_neg_of_pos_of_neg (mul_pos ((Exact.inOpenUnit_iff c1).mp hc1).1 ha) descent

theorem Backtracking.improves_of_mem {c : Backtracking ℝ} (hvalid : c.validate = .ok ())
    (descent : r.slope < 0) (h : (backtracking c).attempts f r alpha = .ok steps) (hs : s ∈ steps)
    (hpos : 0 < s.alpha) (accepted : (s.satisfied || s.decreases r.value) = true) :
    (backtracking c).Improves r s := by
  have hsatisfied := forall_mem_of_collect
    (P := fun s => s.satisfied = (s.finite && c.accepts r s.alpha s.value))
    (fun _ _ _ htrial => (tried_of_trial htrial).2.2) h s hs
  have hbound : s.satisfied = true → s.value ≤ r.value + c.c1 * s.alpha * r.slope := by
    intro htrue
    rw [htrue, eq_comm, Bool.and_eq_true] at hsatisfied
    exact of_decide_eq_true hsatisfied.2
  refine ⟨?_, hbound⟩
  rcases Bool.or_eq_true_iff.mp accepted with htrue | hdecreases
  · have hpredicted := predicted_neg (validate_eq_ok_iff.mp hvalid).1 hpos descent
    linarith [hbound htrue]
  · exact lt_of_decreases hdecreases

theorem StrongWolfe.improves_of_mem {c : StrongWolfe ℝ} (hvalid : c.validate = .ok ())
    (descent : r.slope < 0) (h : (strongWolfe c).attempts f r alpha = .ok steps) (hs : s ∈ steps)
    (hpos : 0 < s.alpha) (accepted : (s.satisfied || s.decreases r.value) = true) :
    (strongWolfe c).Improves r s := by
  have hsuffices := forall_mem_of_collect
    (P := fun s => s.satisfied = true → c.Suffices f r s.alpha s.value) ?_ h s hs
  · have hslack := slack_nonneg r
    rw [Improves]
    cases hsatisfied : s.satisfied with
    | true =>
        have hbound := not_lt.mp (hsuffices hsatisfied).2
        have hpredicted := predicted_neg (validate_eq_ok_iff.mp hvalid).1 hpos descent
        refine ⟨by linarith, ?_⟩
        rintro ⟨⟩
    | false =>
        rw [hsatisfied, Bool.false_or] at accepted
        have hless := lt_of_decreases accepted
        exact ⟨by linarith, fun _ => hless⟩
  · intro done b s htrial hsatisfied
    obtain ⟨halpha, -, ⟨-, -, hunsatisfied⟩ | ⟨hsuffices, -⟩⟩ := trial_cases htrial
    · rw [hsatisfied] at hunsatisfied
      cases hunsatisfied
    · exact halpha ▸ hsuffices

theorem improves_of_search (hvalid : l.validate = .ok ()) (descent : r.slope < 0)
    (halpha : 0 < alpha) (h : l.search f r alpha = .ok s)
    (accepted : (s.satisfied || s.decreases r.value) = true) :
    0 < s.alpha ∧ l.Improves r s := by
  rw [search_eq_map_attempts] at h
  obtain ⟨steps, hsteps, rfl⟩ := Except.map_eq_ok_iff.mp h
  obtain ⟨t, ht, k, hselect⟩ := exists_mem_of_accepted hsteps accepted
  have hpos := alpha_pos_of_mem_attempts hvalid halpha hsteps t ht
  rw [hselect] at accepted ⊢
  have improves : l.Improves r t := by
    cases l with
    | backtracking c => exact Backtracking.improves_of_mem hvalid descent hsteps ht hpos accepted
    | strongWolfe c => exact StrongWolfe.improves_of_mem hvalid descent hsteps ht hpos accepted
  exact ⟨hpos, improves⟩

end Exact

end LocalOptimization.LineSearch
