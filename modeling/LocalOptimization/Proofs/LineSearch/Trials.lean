import Mathlib
import LocalOptimization.LineSearch
import LocalOptimization.Proofs.Except

/-!
# The trials of a line search

Both searches make their trials one by one, until one is satisfied or the budget is spent, and
choose the step that they hand back from them: backtracking takes the last trial, the strong Wolfe
search the one that it remembers as the best. What holds of every trial is shown once for both.
-/

namespace LocalOptimization.LineSearch

variable {K : Type} [Scalar K] {n : Nat} {ε τ : Type}

open StrongWolfe (Memory Bracket)

/-- The step was tried: it reports the value at its end, and the gradient if that was taken. -/
structure Step.Tried (f : Objective K n ε) (r : Ray K n) (s : Step K n) : Prop where
  value : f.value (r.point s.alpha) = .ok s.value
  finite : s.finite = f.isFiniteAt (r.point s.alpha) s.value
  gradient : ∀ g, s.gradient = some g → f.gradient (r.point s.alpha) = .ok g
  satisfied : s.satisfied = true → s.finite = true

/-- Makes at most `budget` trials after `done` others, until one is satisfied, and lists them. -/
def collect (trial : Nat → τ → Except ε (Step K n)) (next : τ → Step K n → τ) :
    (budget done : Nat) → τ → Except ε (List (Step K n))
  | 0, _, _ => return []
  | budget + 1, done, t => do
    let step ← trial done t
    if step.satisfied then
      return [step]
    else
      return step :: (← collect trial next budget (done + 1) (next t step))

namespace StrongWolfe

/-- The trial at the step that the bracket proposes, after `done` others. -/
def trial (c : StrongWolfe K) (f : Objective K n ε) (r : Ray K n) (done : Nat) (b : Bracket K) :
    Except ε (Step K n) := do
  let value ← f.value (r.point b.alpha)
  let finite := f.isFiniteAt (r.point b.alpha) value
  if !finite || c.tooHigh r b.alpha value then
    return {
      alpha := b.alpha, value, finite, gradient := none, satisfied := false
      evaluations := done + 1 }
  else
    let gradient ← f.gradient (r.point b.alpha)
    return {
      alpha := b.alpha, value, finite, gradient := some gradient
      satisfied := c.isFlat r (dot gradient r.direction), evaluations := done + 1 }

/-- The bracket after a trial at the step that it proposed. -/
def Bracket.next (r : Ray K n) (b : Bracket K) (s : Step K n) : Bracket K :=
  match s.gradient with
  | some gradient => if dot gradient r.direction < 0.0 then b.cutBelow else b.cutAbove
  | none => b.cutAbove

namespace Memory

/-- The memory before any trial. -/
def start (alpha : K) : Memory K n where
  best := none
  last := {
    alpha, value := Scalar.nan, finite := false, gradient := none, satisfied := false
    evaluations := 0 }

/-- The step that the search hands back in the end. -/
def select (m : Memory K n) : Step K n :=
  if m.last.satisfied then m.last else m.handBack

end Memory

end StrongWolfe

/-- The trials that a search makes, in order. -/
def attempts (l : LineSearch K) (f : Objective K n ε) (r : Ray K n) (alpha : K) :
    Except ε (List (Step K n)) :=
  match l with
  | backtracking c => collect (c.trial f r) (fun alpha _ => alpha * c.shrink) c.maxIters 0 alpha
  | strongWolfe c =>
      collect (c.trial f r) (Bracket.next r) c.maxIters 0 { lo := 0.0, hi := none, alpha }

/-- The step that a search from `alpha` hands back after these trials. -/
def select (l : LineSearch K) (alpha : K) (steps : List (Step K n)) : Step K n :=
  let memory := steps.foldl Memory.add (Memory.start alpha)
  match l with
  | backtracking _ => memory.last
  | strongWolfe _ => memory.select

variable {f : Objective K n ε} {r : Ray K n}

section Collect

variable {trial : Nat → τ → Except ε (Step K n)} {next : τ → Step K n → τ} {budget done : Nat}
  {t : τ} {steps : List (Step K n)}

omit [Scalar K] in
theorem collect_succ_eq_ok_iff :
    collect trial next (budget + 1) done t = .ok steps ↔
      ∃ step rest, trial done t = .ok step ∧ steps = step :: rest ∧
        if step.satisfied then rest = []
        else collect trial next budget (done + 1) (next t step) = .ok rest := by
  rw [collect, Except.bind_eq_ok_iff]
  constructor
  · rintro ⟨step, hstep, h⟩
    split at h
    next hsatisfied =>
      cases h
      exact ⟨step, [], hstep, rfl, by rw [if_pos hsatisfied]⟩
    next hunsatisfied =>
      obtain ⟨rest, hrest, h⟩ := Except.bind_eq_ok_iff.mp h
      cases h
      exact ⟨step, rest, hstep, rfl, by rwa [if_neg hunsatisfied]⟩
  · rintro ⟨step, rest, hstep, rfl, h⟩
    refine ⟨step, hstep, ?_⟩
    split at h
    next hsatisfied =>
      subst h
      rw [if_pos hsatisfied]
      rfl
    next hunsatisfied =>
      rw [if_neg hunsatisfied]
      exact Except.bind_eq_ok_iff.mpr ⟨rest, h, rfl⟩

omit [Scalar K] in
theorem exists_collect (total : ∀ done t, ∃ s, trial done t = .ok s) (budget done : Nat) (t : τ) :
    ∃ steps, collect trial next budget done t = .ok steps := by
  induction budget generalizing done t with
  | zero => exact ⟨[], rfl⟩
  | succ budget ih =>
      obtain ⟨step, hstep⟩ := total done t
      obtain ⟨rest, hrest⟩ := ih (done + 1) (next t step)
      by_cases hsatisfied : step.satisfied = true
      · exact ⟨[step], collect_succ_eq_ok_iff.mpr
          ⟨step, [], hstep, rfl, by rw [if_pos hsatisfied]⟩⟩
      · exact ⟨step :: rest, collect_succ_eq_ok_iff.mpr
          ⟨step, rest, hstep, rfl, by rwa [if_neg hsatisfied]⟩⟩

omit [Scalar K] in
theorem forall_mem_of_collect_of_invariant {I : τ → Prop} {P : Step K n → Prop}
    (each : ∀ done t s, I t → trial done t = .ok s → P s ∧ I (next t s)) (ht : I t)
    (h : collect trial next budget done t = .ok steps) : ∀ s ∈ steps, P s := by
  induction budget generalizing done t steps with
  | zero =>
      cases h
      simp
  | succ budget ih =>
      obtain ⟨step, rest, hstep, rfl, hrest⟩ := collect_succ_eq_ok_iff.mp h
      obtain ⟨hP, hnext⟩ := each _ _ _ ht hstep
      rw [List.forall_mem_cons]
      refine ⟨hP, ?_⟩
      split at hrest
      · simp [hrest]
      · exact ih hnext hrest

omit [Scalar K] in
theorem forall_mem_of_collect {P : Step K n → Prop}
    (each : ∀ done t s, trial done t = .ok s → P s)
    (h : collect trial next budget done t = .ok steps) : ∀ s ∈ steps, P s :=
  forall_mem_of_collect_of_invariant (I := fun _ => True)
    (fun done t s _ htrial => ⟨each done t s htrial, trivial⟩) trivial h

theorem unsatisfied_of_collect {m : Memory K n}
    (h : collect trial next budget done t = .ok steps)
    (hlast : (steps.foldl Memory.add m).last.satisfied = false) :
    ∀ s ∈ steps, s.satisfied = false := by
  induction budget generalizing done t steps m with
  | zero =>
      cases h
      simp
  | succ budget ih =>
      obtain ⟨step, rest, -, rfl, hrest⟩ := collect_succ_eq_ok_iff.mp h
      split at hrest
      next hsatisfied =>
        subst hrest
        exact absurd hlast (by simp [Memory.add, hsatisfied])
      next hunsatisfied =>
        rw [List.forall_mem_cons]
        exact ⟨Bool.eq_false_iff.mpr hunsatisfied, ih hrest hlast⟩

theorem evaluations_of_collect {m : Memory K n}
    (each : ∀ done t s, trial done t = .ok s → s.evaluations = done + 1)
    (h : collect trial next budget done t = .ok steps) (hm : m.last.evaluations = done) :
    (steps.foldl Memory.add m).last.evaluations = done + steps.length := by
  induction budget generalizing done t steps m with
  | zero =>
      cases h
      exact hm
  | succ budget ih =>
      obtain ⟨step, rest, hstep, rfl, hrest⟩ := collect_succ_eq_ok_iff.mp h
      have hevaluations : (m.add step).last.evaluations = done + 1 := each _ _ _ hstep
      split at hrest
      · subst hrest
        exact hevaluations
      · rw [List.foldl_cons, ih hrest hevaluations, List.length_cons]
        omega

end Collect

namespace Backtracking

variable {c : Backtracking K}

theorem tried_of_trial {done : Nat} {alpha : K} {s : Step K n}
    (h : c.trial f r done alpha = .ok s) :
    s.Tried f r ∧ s.evaluations = done + 1 ∧
      s.satisfied = (s.finite && c.accepts r s.alpha s.value) := by
  obtain ⟨value, hvalue, h⟩ := Except.bind_eq_ok_iff.mp h
  cases h
  refine ⟨⟨hvalue, rfl, nofun, ?_⟩, rfl, rfl⟩
  intro hsatisfied
  exact (Bool.and_eq_true_iff.mp hsatisfied).1

theorem trials_eq_map_collect (m : Memory K n) (more done : Nat) (alpha : K) :
    c.trials f r more done alpha =
      (collect (c.trial f r) (fun alpha _ => alpha * c.shrink) (more + 1) done alpha).map
        fun steps => (steps.foldl Memory.add m).last := by
  induction more generalizing m done alpha with
  | zero =>
      rw [trials, collect]
      cases c.trial f r done alpha with
      | error e => rfl
      | ok step =>
          cases hsatisfied : step.satisfied <;>
            simp [bind, Except.bind, hsatisfied, collect, pure, Except.pure, Except.map, Memory.add]
  | succ more ih =>
      rw [trials, collect]
      cases c.trial f r done alpha with
      | error e => rfl
      | ok step =>
          cases hsatisfied : step.satisfied with
          | true =>
              simp [bind, Except.bind, hsatisfied, pure, Except.pure, Except.map, Memory.add]
          | false =>
              have hrest := ih (m.add step) (done + 1) (alpha * c.shrink)
              dsimp only [bind, Except.bind]
              rw [hsatisfied, if_neg (by simp), if_neg (by simp), hrest]
              cases collect (c.trial f r) (fun alpha _ => alpha * c.shrink) (more + 1) (done + 1)
                (alpha * c.shrink) <;> rfl

theorem search_eq_map_collect (alpha : K) :
    c.search f r alpha =
      (collect (c.trial f r) (fun alpha _ => alpha * c.shrink) c.maxIters 0 alpha).map
        fun steps => (steps.foldl Memory.add (Memory.start alpha)).last := by
  rw [search]
  cases c.maxIters with
  | zero => rfl
  | succ more => exact trials_eq_map_collect _ _ _ _

end Backtracking

namespace StrongWolfe

variable {c : StrongWolfe K}

theorem tried_of_trial {done : Nat} {b : Bracket K} {s : Step K n}
    (h : c.trial f r done b = .ok s) : s.Tried f r ∧ s.evaluations = done + 1 := by
  obtain ⟨value, hvalue, h⟩ := Except.bind_eq_ok_iff.mp h
  dsimp only at h
  split at h
  · cases h
    exact ⟨⟨hvalue, rfl, nofun, nofun⟩, rfl⟩
  · next hkeep =>
      have hfinite : f.isFiniteAt (r.point b.alpha) value = true := by
        simpa using (Bool.or_eq_false_iff.mp (Bool.eq_false_iff.mpr hkeep)).1
      obtain ⟨gradient, hgradient, h⟩ := Except.bind_eq_ok_iff.mp h
      cases h
      refine ⟨⟨hvalue, rfl, ?_, fun _ => hfinite⟩, rfl⟩
      rintro g ⟨⟩
      exact hgradient

theorem trials_succ (budget done : Nat) (b : Bracket K) (m : Memory K n) :
    c.trials f r (budget + 1) done b m = (do
      let step ← c.trial f r done b
      if step.satisfied then return step
      else c.trials f r budget (done + 1) (b.next r step) (m.add step)) := by
  rw [trials, trial]
  cases f.value (r.point b.alpha) with
  | error e => rfl
  | ok value =>
      dsimp only [bind, Except.bind]
      split
      · rfl
      · cases f.gradient (r.point b.alpha) with
        | error e => rfl
        | ok gradient =>
            dsimp only [pure, Except.pure]
            cases hflat : c.isFlat r (dot gradient r.direction) with
            | true => rfl
            | false =>
                by_cases hslope : dot gradient r.direction < 0.0
                · simp [Bracket.next, hslope]
                · simp [Bracket.next, hslope]

theorem trials_eq_map_collect {m : Memory K n} (hm : m.last.satisfied = false)
    (budget done : Nat) (b : Bracket K) :
    c.trials f r budget done b m =
      (collect (c.trial f r) (Bracket.next r) budget done b).map
        fun steps => (steps.foldl Memory.add m).select := by
  induction budget generalizing done b m with
  | zero => simp [trials, collect, pure, Except.pure, Except.map, Memory.select, hm]
  | succ budget ih =>
      rw [trials_succ, collect]
      cases c.trial f r done b with
      | error e => rfl
      | ok step =>
          dsimp only [bind, Except.bind]
          cases hsatisfied : step.satisfied with
          | true =>
              simp [pure, Except.pure, Except.map, Memory.add, Memory.select, hsatisfied]
          | false =>
              rw [if_neg (by simp), if_neg (by simp), ih (m := m.add step) hsatisfied]
              cases collect (c.trial f r) (Bracket.next r) budget (done + 1) (b.next r step) <;> rfl

omit [Scalar K] in
theorem Memory.select_of_unsatisfied {m : Memory K n}
    (h : m.select.satisfied = false) : m.select = m.handBack := by
  rw [Memory.select] at h ⊢
  split at h
  next hsatisfied => simp [hsatisfied] at h
  next hunsatisfied => rw [if_neg hunsatisfied]

theorem search_eq_map_collect (alpha : K) :
    c.search f r alpha =
      (collect (c.trial f r) (Bracket.next r) c.maxIters 0 { lo := 0.0, hi := none, alpha }).map
        fun steps => (steps.foldl Memory.add (Memory.start alpha)).select :=
  trials_eq_map_collect rfl _ _ _

end StrongWolfe

/-- The step that a search hands back is chosen from its trials. -/
theorem search_eq_map_attempts (l : LineSearch K) (alpha : K) :
    l.search f r alpha = (l.attempts f r alpha).map (l.select alpha) := by
  cases l with
  | backtracking c => exact Backtracking.search_eq_map_collect alpha
  | strongWolfe c => exact StrongWolfe.search_eq_map_collect alpha

variable {l : LineSearch K} {alpha : K} {steps : List (Step K n)}

theorem tried_of_mem_attempts (h : l.attempts f r alpha = .ok steps) :
    ∀ s ∈ steps, s.Tried f r := by
  cases l with
  | backtracking c =>
      exact forall_mem_of_collect (fun _ _ _ htrial => (Backtracking.tried_of_trial htrial).1) h
  | strongWolfe c =>
      exact forall_mem_of_collect (fun _ _ _ htrial => (StrongWolfe.tried_of_trial htrial).1) h

theorem evaluations_select (h : l.attempts f r alpha = .ok steps) :
    (l.select alpha steps).evaluations = steps.length := by
  cases l with
  | backtracking c =>
      have hlast := evaluations_of_collect (m := Memory.start alpha)
        (fun _ _ _ htrial => (Backtracking.tried_of_trial htrial).2.1) h rfl
      simpa [select] using hlast
  | strongWolfe c =>
      have hlast := evaluations_of_collect (m := Memory.start alpha)
        (fun _ _ _ htrial => (StrongWolfe.tried_of_trial htrial).2) h rfl
      simp only [select, Memory.select, Memory.handBack]
      split <;> simpa using hlast

end LocalOptimization.LineSearch
