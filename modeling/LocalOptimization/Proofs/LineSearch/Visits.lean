import LocalOptimization.Proofs.LineSearch.Trials

/-!
# The states that a line search comes to

A search looks next where its state says. As long as no trial is satisfied the state moves on, and a
search ends in the first state whose trial fails or is satisfied, or else where the budget is spent.
-/

namespace LocalOptimization.LineSearch

variable {K : Type} {n : Nat} {ε τ : Type}
variable {trial : Nat → τ → Except ε (Step K n)} {next : τ → Step K n → τ} {start t : τ}
  {steps : List (Step K n)} {budget total : Nat}

/-- A search that begins at `start` comes to the state `t` after these trials, none of which is
satisfied. -/
inductive Visits (trial : Nat → τ → Except ε (Step K n)) (next : τ → Step K n → τ) (start : τ) :
    List (Step K n) → τ → Prop where
  | start : Visits trial next start [] start
  | next {steps : List (Step K n)} {t : τ} {s : Step K n} :
      Visits trial next start steps t → trial steps.length t = .ok s → s.satisfied = false →
        Visits trial next start (steps ++ [s]) (next t s)

/-- How a search with a budget ends, and the trials that it has made. -/
inductive Ends (trial : Nat → τ → Except ε (Step K n)) (next : τ → Step K n → τ) (start : τ)
    (budget : Nat) : Except ε (List (Step K n)) → Prop where
  | failed {steps : List (Step K n)} {t : τ} {e : ε} :
      Visits trial next start steps t → steps.length < budget →
        trial steps.length t = .error e → Ends trial next start budget (.error e)
  | satisfied {steps : List (Step K n)} {t : τ} {s : Step K n} :
      Visits trial next start steps t → steps.length < budget →
        trial steps.length t = .ok s → s.satisfied = true →
          Ends trial next start budget (.ok (steps ++ [s]))
  | exhausted {steps : List (Step K n)} {t : τ} :
      Visits trial next start steps t → steps.length = budget →
        Ends trial next start budget (.ok steps)

namespace Visits

theorem unsatisfied (visits : Visits trial next start steps t) :
    ∀ s ∈ steps, s.satisfied = false := by
  induction visits with
  | start => simp
  | next _ _ hunsatisfied ih =>
      rw [List.forall_mem_append]
      exact ⟨ih, by simpa using hunsatisfied⟩

theorem ends_collect (visits : Visits trial next start steps t)
    (hbudget : steps.length + budget = total) :
    Ends trial next start total
      ((collect trial next budget steps.length t).map (steps ++ ·)) := by
  induction budget generalizing steps t with
  | zero =>
      rw [collect]
      simpa [pure, Except.pure, Except.map] using Ends.exhausted visits hbudget
  | succ budget ih =>
      have hallowed : steps.length < total := by omega
      rw [collect]
      cases htrial : trial steps.length t with
      | error e => exact .failed visits hallowed htrial
      | ok s =>
          cases hsatisfied : s.satisfied with
          | true =>
              simpa [bind, Except.bind, hsatisfied, pure, Except.pure, Except.map] using
                Ends.satisfied visits hallowed htrial hsatisfied
          | false =>
              have hrest := ih (visits.next htrial hsatisfied) (by simp; omega)
              rw [List.length_append, List.length_singleton] at hrest
              cases hcollect : collect trial next budget (steps.length + 1) (next t s) <;>
                simpa [bind, Except.bind, hsatisfied, hcollect, pure, Except.pure, Except.map]
                  using hrest

end Visits

/-- A search makes its trials in the states that it comes to. -/
theorem ends_collect (trial : Nat → τ → Except ε (Step K n)) (next : τ → Step K n → τ) (start : τ)
    (budget : Nat) : Ends trial next start budget (collect trial next budget 0 start) := by
  have visits : Visits trial next start [] start := .start
  have hends := visits.ends_collect (Nat.zero_add budget)
  cases hcollect : collect trial next budget 0 start <;>
    simpa [hcollect, Except.map] using hends

end LocalOptimization.LineSearch
