import LocalOptimization.Proofs.LineSearch.Trials
import LocalOptimization.Proofs.OrderedScalar

/-!
# The best trial of a line search

A backtracking search that ends unsatisfied has found a sufficient decrease nowhere, and hands back
its last trial. The strong Wolfe search remembers the finite trial of lowest value, so that no trial
decreases the objective where the step handed back does not.
-/

namespace LocalOptimization.LineSearch

open StrongWolfe (Memory)

variable {K : Type} [Scalar K] {n : Nat} {ε : Type}
variable {f : Objective K n ε} {r : Ray K n} {alpha : K} {steps : List (Step K n)}

theorem not_accepts_of_unsatisfied {c : Backtracking K}
    (h : (backtracking c).attempts f r alpha = .ok steps)
    (hlast : ((backtracking c).select alpha steps).satisfied = false) :
    ∀ s ∈ steps, s.finite = true → c.accepts r s.alpha s.value = false := by
  intro s hs hfinite
  have hunsatisfied := unsatisfied_of_collect h hlast s hs
  have hsatisfied := forall_mem_of_collect
    (P := fun s => s.satisfied = (s.finite && c.accepts r s.alpha s.value))
    (fun _ _ _ htrial => (Backtracking.tried_of_trial htrial).2.2) h s hs
  rwa [hunsatisfied, hfinite, Bool.true_and, eq_comm] at hsatisfied

namespace StrongWolfe

theorem Memory.best_add_cases (m : Memory K n) (s : Step K n) :
    ((m.add s).best = some s ∧ s.finite = true ∧ ∀ b, m.best = some b → ¬ b.value ≤ s.value) ∨
      ((m.add s).best = m.best ∧
        (s.finite = true → ∃ b, m.best = some b ∧ b.value ≤ s.value)) := by
  cases hbest : m.best with
  | none => cases hfinite : s.finite <;> simp [add, hbest, hfinite]
  | some b =>
      by_cases hkept : b.value ≤ s.value <;> cases hfinite : s.finite <;>
        simp [add, hbest, hfinite, hkept]

end StrongWolfe

/-- The step remembered is a finite one of these, and no finite one lies below it. -/
structure IsLeast (best : Option (Step K n)) (steps : List (Step K n)) : Prop where
  mem : ∀ b, best = some b → b ∈ steps ∧ b.finite = true
  le : ∀ s ∈ steps, s.finite = true → ∃ b, best = some b ∧ b.value ≤ s.value

namespace IsLeast

variable {best : Option (Step K n)} {s : Step K n}

theorem getD_mem (h : IsLeast best steps) (hne : steps ≠ []) :
    best.getD (steps.getLast hne) ∈ steps := by
  cases hbest : best with
  | none => exact List.getLast_mem hne
  | some b => exact (h.mem b hbest).1

theorem keep (h : IsLeast best steps)
    (hs : s.finite = true → ∃ b, best = some b ∧ b.value ≤ s.value) :
    IsLeast best (steps ++ [s]) := by
  constructor
  · intro b hb
    exact ⟨List.mem_append_left _ (h.mem b hb).1, (h.mem b hb).2⟩
  · intro t ht hfinite
    rcases List.mem_append.mp ht with hold | hnew
    · exact h.le t hold hfinite
    · obtain rfl := List.mem_singleton.mp hnew
      exact hs hfinite

theorem replace (hfinite : s.finite = true) (hle : ∀ t ∈ steps ++ [s], t.finite = true →
    s.value ≤ t.value) : IsLeast (some s) (steps ++ [s]) := by
  constructor
  · rintro b ⟨⟩
    exact ⟨by simp, hfinite⟩
  · intro t ht htfinite
    exact ⟨s, rfl, hle t ht htfinite⟩

end IsLeast

theorem mem_dropLast_or_eq_select (c : Backtracking K) (alpha : K) {s : Step K n}
    (hs : s ∈ steps) :
    s ∈ steps.dropLast ∨ s = (backtracking c).select alpha steps := by
  rcases steps.eq_nil_or_concat with rfl | ⟨before, last, rfl⟩
  · cases hs
  · rw [List.concat_eq_append] at hs ⊢
    rw [List.dropLast_concat, select, List.foldl_concat]
    exact (List.mem_append.mp hs).imp_right List.mem_singleton.mp

section Ordered

open OrderedScalar

variable [OrderedScalar K]

theorem IsLeast.add {m : Memory K n} {s : Step K n} (h : IsLeast m.best steps)
    (isNaN : ∀ t ∈ steps ++ [s], t.finite = true → Scalar.isNaN t.value = false) :
    IsLeast (m.add s).best (steps ++ [s]) := by
  have hs : s ∈ steps ++ [s] := by simp
  rcases m.best_add_cases s with ⟨hbest, hfinite, hbelow⟩ | ⟨hbest, hkept⟩
  · rw [hbest]
    refine .replace hfinite fun t ht htfinite => ?_
    rcases List.mem_append.mp ht with hold | hnew
    · obtain ⟨b, hb, hbt⟩ := h.le t hold htfinite
      obtain ⟨hmem, hbfinite⟩ := h.mem b hb
      have hsb : s.value ≤ b.value := le_of_not_le (hbelow b hb) (isNaN s hs hfinite)
        (isNaN b (List.mem_append_left _ hmem) hbfinite)
      exact le_trans hsb hbt
    · obtain rfl := List.mem_singleton.mp hnew
      exact le_refl_of_isNaN (isNaN t hs hfinite)
  · rw [hbest]
    exact h.keep hkept

theorem IsLeast.foldl_add {m : Memory K n} {before : List (Step K n)}
    (h : IsLeast m.best before)
    (isNaN : ∀ t ∈ before ++ steps, t.finite = true → Scalar.isNaN t.value = false) :
    IsLeast (steps.foldl Memory.add m).best (before ++ steps) := by
  induction steps generalizing m before with
  | nil => simpa using h
  | cons s steps ih =>
      rw [List.append_cons] at isNaN ⊢
      refine ih (h.add fun t ht => isNaN t (List.mem_append_left _ ht)) isNaN

/-- No finite step before the one remembered is as low. -/
def IsEarliest (best : Option (Step K n)) (steps : List (Step K n)) : Prop :=
  ∀ b, best = some b → ∃ before after, steps = before ++ b :: after ∧
    ∀ t ∈ before, t.finite = true → b.value < t.value

theorem IsEarliest.add {m : Memory K n} {s : Step K n} (h : IsEarliest m.best steps)
    (least : IsLeast m.best steps)
    (isNaN : ∀ t ∈ steps ++ [s], t.finite = true → Scalar.isNaN t.value = false) :
    IsEarliest (m.add s).best (steps ++ [s]) := by
  rcases m.best_add_cases s with ⟨hbest, hfinite, hbelow⟩ | ⟨hbest, -⟩
  · rw [hbest]
    rintro b ⟨⟩
    refine ⟨steps, [], rfl, fun t ht htfinite => ?_⟩
    obtain ⟨b, hb, hbt⟩ := least.le t ht htfinite
    obtain ⟨hmem, hbfinite⟩ := least.mem b hb
    have hsb : s.value < b.value := lt_of_not_le (hbelow b hb)
      (isNaN b (List.mem_append_left _ hmem) hbfinite) (isNaN s (by simp) hfinite)
    exact lt_of_lt_of_le hsb hbt
  · rw [hbest]
    intro b hb
    obtain ⟨before, after, rfl, hbefore⟩ := h b hb
    exact ⟨before, after ++ [s], by simp, hbefore⟩

theorem IsEarliest.foldl_add {m : Memory K n} {before : List (Step K n)}
    (h : IsEarliest m.best before) (least : IsLeast m.best before)
    (isNaN : ∀ t ∈ before ++ steps, t.finite = true → Scalar.isNaN t.value = false) :
    IsEarliest (steps.foldl Memory.add m).best (before ++ steps) := by
  induction steps generalizing m before with
  | nil => simpa using h
  | cons s steps ih =>
      rw [List.append_cons] at isNaN ⊢
      have hnow : ∀ t ∈ before ++ [s], t.finite = true → Scalar.isNaN t.value = false :=
        fun t ht => isNaN t (List.mem_append_left _ ht)
      exact ih (h.add least hnow) (least.add hnow) isNaN

section Attempts

variable {l : LineSearch K}

theorem isNaN_of_mem_attempts (h : l.attempts f r alpha = .ok steps) {s : Step K n}
    (hs : s ∈ steps) (hfinite : s.finite = true) : Scalar.isNaN s.value = false := by
  rw [(tried_of_mem_attempts h s hs).finite, Objective.isFiniteAt, Bool.and_eq_true] at hfinite
  exact isNaN_of_isFinite hfinite.2

theorem isLeast_of_attempts (h : l.attempts f r alpha = .ok steps) :
    IsLeast (steps.foldl Memory.add (Memory.start alpha)).best steps := by
  have least : IsLeast (Memory.start alpha : Memory K n).best [] := ⟨nofun, nofun⟩
  exact least.foldl_add fun t ht => isNaN_of_mem_attempts h ht

theorem isEarliest_of_attempts (h : l.attempts f r alpha = .ok steps) :
    IsEarliest (steps.foldl Memory.add (Memory.start alpha)).best steps := by
  have least : IsLeast (Memory.start alpha : Memory K n).best [] := ⟨nofun, nofun⟩
  have earliest : IsEarliest (Memory.start alpha : Memory K n).best [] := nofun
  exact earliest.foldl_add least fun t ht => isNaN_of_mem_attempts h ht

end Attempts

theorem not_decreases_of_select {c : StrongWolfe K} {v : K}
    (h : (strongWolfe c).attempts f r alpha = .ok steps)
    (hunsatisfied : ((strongWolfe c).select alpha steps).satisfied = false)
    (hselected : ((strongWolfe c).select alpha steps).decreases v = false) :
    ∀ s ∈ steps, s.decreases v = false := by
  have least := isLeast_of_attempts h
  intro s hs
  by_contra hdecreases
  rw [Bool.not_eq_false, Step.decreases, Bool.and_eq_true, decide_eq_true_eq] at hdecreases
  obtain ⟨b, hbest, hbs⟩ := least.le s hs hdecreases.1
  have hb : b.decreases v = true := by
    rw [Step.decreases, Bool.and_eq_true, decide_eq_true_eq]
    exact ⟨(least.mem b hbest).2, lt_of_le_of_lt hbs hdecreases.2⟩
  have hhandBack : (steps.foldl Memory.add (Memory.start alpha)).handBack.decreases v = true := by
    simpa [Memory.handBack, hbest, Step.decreases] using hb
  rw [select, Memory.select_of_unsatisfied hunsatisfied, hhandBack] at hselected
  cases hselected

end Ordered

end LocalOptimization.LineSearch
