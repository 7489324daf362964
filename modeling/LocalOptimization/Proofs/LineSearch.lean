import LocalOptimization.Proofs.LineSearch.Trials

/-!
# What a line search hands back

Whatever step a search hands back, at the end of it the objective has the value and the gradient
that the step reports, and no step is marked as satisfying where the value is not finite. A search
fails only with an error of the objective.
-/

namespace LocalOptimization

variable {K : Type} [Scalar K] {n : Nat} {ε : Type}

/-- The objective has a value and a gradient at every point. -/
structure Objective.Total (f : Objective K n ε) : Prop where
  value : ∀ x, ∃ v, f.value x = .ok v
  gradient : ∀ x, ∃ g, f.gradient x = .ok g

namespace LineSearch

/-- What a step reports is what the objective has at the end of it. -/
structure Step.Sound (f : Objective K n ε) (r : Ray K n) (s : Step K n) : Prop where
  value : s.finite = true → f.value (r.point s.alpha) = .ok s.value
  finite : s.finite = true → f.isFiniteAt (r.point s.alpha) s.value = true
  gradient : ∀ g, s.gradient = some g → f.gradient (r.point s.alpha) = .ok g
  satisfied : s.satisfied = true → s.finite = true

variable {f : Objective K n ε} {r : Ray K n} {s : Step K n}

theorem Step.Sound.finite_of_accepted {v : K} (sound : s.Sound f r)
    (accepted : (s.satisfied || s.decreases v) = true) : s.finite = true := by
  rcases Bool.or_eq_true_iff.mp accepted with hsatisfied | hdecreases
  · exact sound.satisfied hsatisfied
  · exact (Bool.and_eq_true_iff.mp hdecreases).1

theorem Step.Tried.sound (tried : s.Tried f r) : s.Sound f r :=
  ⟨fun _ => tried.value, fun hfinite => tried.finite ▸ hfinite, tried.gradient, tried.satisfied⟩

namespace StrongWolfe

structure Memory.Sound (f : Objective K n ε) (r : Ray K n) (m : Memory K n) : Prop where
  best : ∀ s, m.best = some s → s.Sound f r
  last : m.last.Sound f r

namespace Memory.Sound

variable {m : Memory K n}

theorem start (alpha : K) : (Memory.start alpha).Sound f r :=
  ⟨nofun, nofun, nofun, nofun, nofun⟩

theorem add (hm : m.Sound f r) (hs : s.Sound f r) : (m.add s).Sound f r := by
  refine ⟨?_, hs⟩
  intro b hb
  simp only [Memory.add] at hb
  split at hb
  · split at hb
    · cases hb
      exact hs
    · cases hb
      exact hm.best _ ‹_›
  · split at hb
    · cases hb
      exact hs
    · cases hb

theorem foldl_add {steps : List (Step K n)} (hm : m.Sound f r)
    (hsteps : ∀ s ∈ steps, s.Sound f r) : (steps.foldl Memory.add m).Sound f r := by
  induction steps generalizing m with
  | nil => exact hm
  | cons s steps ih =>
      rw [List.forall_mem_cons] at hsteps
      exact ih (hm.add hsteps.1) hsteps.2

theorem select (hm : m.Sound f r) : m.select.Sound f r := by
  have hbest : (m.best.getD m.last).Sound f r := by
    cases hbest : m.best with
    | none => exact hm.last
    | some b => exact hm.best b hbest
  rw [Memory.select]
  split
  · exact hm.last
  · exact ⟨hbest.value, hbest.finite, hbest.gradient, hbest.satisfied⟩

end Memory.Sound

end StrongWolfe

open StrongWolfe (Memory)

theorem search_sound {l : LineSearch K} {alpha : K} (h : l.search f r alpha = .ok s) :
    s.Sound f r := by
  rw [search_eq_map_attempts] at h
  obtain ⟨steps, hsteps, rfl⟩ := Except.map_eq_ok_iff.mp h
  have hmemory : (steps.foldl Memory.add (Memory.start alpha)).Sound f r :=
    (Memory.Sound.start alpha).foldl_add fun s hs => (tried_of_mem_attempts hsteps s hs).sound
  cases l with
  | backtracking c => exact hmemory.last
  | strongWolfe c => exact hmemory.select

theorem Backtracking.exists_trial (total : f.Total) (c : Backtracking K) (done : Nat) (alpha : K) :
    ∃ s, c.trial f r done alpha = .ok s := by
  obtain ⟨value, hvalue⟩ := total.value (r.point alpha)
  rw [trial, hvalue]
  exact ⟨_, rfl⟩

theorem StrongWolfe.exists_trial (total : f.Total) (c : StrongWolfe K) (done : Nat)
    (b : Bracket K) : ∃ s, c.trial f r done b = .ok s := by
  obtain ⟨value, hvalue⟩ := total.value (r.point b.alpha)
  obtain ⟨gradient, hgradient⟩ := total.gradient (r.point b.alpha)
  rw [trial, hvalue]
  dsimp only [bind, Except.bind]
  split
  · exact ⟨_, rfl⟩
  · rw [hgradient]
    exact ⟨_, rfl⟩

theorem exists_search (total : f.Total) (l : LineSearch K) (alpha : K) :
    ∃ s, l.search f r alpha = .ok s := by
  have hattempts : ∃ steps, l.attempts f r alpha = .ok steps := by
    cases l with
    | backtracking c => exact exists_collect (c.exists_trial total) _ _ _
    | strongWolfe c => exact exists_collect (c.exists_trial total) _ _ _
  obtain ⟨steps, hsteps⟩ := hattempts
  rw [search_eq_map_attempts, hsteps]
  exact ⟨_, rfl⟩

end LineSearch

end LocalOptimization
