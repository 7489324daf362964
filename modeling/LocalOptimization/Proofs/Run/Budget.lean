import LocalOptimization.Proofs.Run

/-!
# Runs with a larger budget

To run with a larger budget is to run with the smaller one and, if that is spent, to go on from
where the run has come to. A run that ends for another reason does not depend on its budget.
-/

namespace LocalOptimization.Iteration

variable {S E R ε σ : Type} {m : Iteration S E R ε} {o : Observer σ E}

/-- Goes on with `extra` iterations from an ending whose budget is spent. -/
def resume (m : Iteration S E R ε) (o : Observer σ E) (extra : Nat) :
    Except ε (Ending S R) × σ → Except ε (Ending S R) × σ
  | (.error e, w) => (.error e, w)
  | (.ok e, w) =>
      if e.status = .exhausted then m.continueFor o extra e.toProgress w else (.ok e, w)

theorem continueFor_add (budget extra : Nat) (p : Progress S R) (w : σ) :
    m.continueFor o (budget + extra) p w = m.resume o extra (m.continueFor o budget p w) := by
  refine continueFor_induction (motive := fun budget p w r =>
    m.continueFor o (budget + extra) p w = m.resume o extra r)
    ?spent ?converged ?failed ?gaveUp ?stopped ?passed budget p w
  case spent =>
    intro p w
    rw [Nat.zero_add, resume]
    cases hconverged : m.converged p.state with
    | false => rw [if_pos (by simp [statusAtBudget, hconverged])]
    | true =>
        rw [if_neg (by simp [statusAtBudget, hconverged])]
        cases extra with
        | zero => rfl
        | succ extra =>
            rw [continueFor_of_converged hconverged]
            simp [statusAtBudget, hconverged]
  case converged =>
    intro budget p w hconverged
    rw [Nat.add_right_comm, continueFor_of_converged hconverged]
    rfl
  case failed =>
    intro budget p w e hrunning hadvance
    rw [Nat.add_right_comm, continueFor_of_error hrunning hadvance]
    rfl
  case gaveUp =>
    intro budget p w hrunning hadvance
    rw [Nat.add_right_comm, continueFor_of_gaveUp hrunning hadvance]
    rfl
  case stopped =>
    intro budget p w t event hrunning hadvance hobserve
    rw [Nat.add_right_comm, continueFor_of_stop hrunning hadvance hobserve, resume, if_neg]
    simp only [statusAtStop]
    split <;> simp
  case passed =>
    intro budget p w t event r hrunning hadvance hobserve ih
    rw [Nat.add_right_comm, continueFor_of_pass hrunning hadvance hobserve]
    exact ih

/-- The run with the result `r` has spent its budget, and `r'` goes on from there by these events.
-/
structure GoesOn (m : Iteration S E R ε) (o : Observer σ E)
    (r r' : Except ε (Ending S R) × σ) (events : List E) : Prop where
  exhausted : ∃ e, r.1 = .ok e ∧ e.status = .exhausted ∧
    ∀ e', r'.1 = .ok e' → e'.history = (events.map m.record).foldl .push e.history
  observer : r'.2 = o.after r.2 events

theorem resume_cases (m : Iteration S E R ε) (o : Observer σ E) (extra : Nat)
    (r : Except ε (Ending S R) × σ) :
    m.resume o extra r = r ∨ ∃ events, m.GoesOn o r (m.resume o extra r) events := by
  rcases r with ⟨e | e, w⟩
  · exact .inl rfl
  · rw [resume]
    split
    next hexhausted =>
      obtain ⟨events, t, -, hobserver, hhistory⟩ := m.exists_chain o extra e.toProgress w
      exact .inr ⟨events, ⟨e, rfl, hexhausted, hhistory⟩, hobserver⟩
    next => exact .inl rfl

theorem run_budget_cases (m : Iteration S E R ε) (o : Observer σ E) (budget extra : Nat)
    (limit : Option Nat) (s : S) (w : σ) :
    m.run o (budget + extra) limit s w = m.run o budget limit s w ∨
      ∃ events, m.GoesOn o (m.run o budget limit s w) (m.run o (budget + extra) limit s w)
        events := by
  simp only [run, continueFor_add]
  exact m.resume_cases o extra _

theorem runFrom_budget_cases (m : Iteration S E R ε) (o : Observer σ E) (budget extra : Nat)
    (limit : Option Nat) (s : S) (event : E) (w : σ) :
    m.runFrom o (budget + extra) limit s event w = m.runFrom o budget limit s event w ∨
      ∃ events, m.GoesOn o (m.runFrom o budget limit s event w)
        (m.runFrom o (budget + extra) limit s event w) events := by
  cases hobserve : (o.observe w event).1 with
  | true =>
      rw [runFrom_of_stop hobserve, runFrom_of_stop hobserve]
      exact .inl rfl
  | false =>
      rw [runFrom_of_pass hobserve, runFrom_of_pass hobserve, continueFor_add]
      exact m.resume_cases o extra _

end LocalOptimization.Iteration
