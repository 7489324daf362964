import Mathlib
import LocalOptimization.Proofs.Constrained.Methods
import LocalOptimization.Proofs.Univariate

/-!
# Gradients where the value is finite

A run asks for gradients of trials whose value is finite and of steps that it takes, and those are
finite too. What the gradient says elsewhere is never seen: not in the searches, and so not in an
iteration.
-/

namespace LocalOptimization

variable {K : Type} [Scalar K] {n : Nat} {ε σ : Type}

namespace Objective

variable {f g : Objective K n ε}

/-- The objective has a finite value at `x`. -/
def FiniteAt (f : Objective K n ε) (x : Vector K n) : Prop :=
  ∃ v, f.value x = .ok v ∧ f.isFiniteAt x v = true

/-- The objectives have the same values, finite at the same points, and have the same gradients, or
fail in the same way, where the values are finite. -/
structure SameWhereFinite (f g : Objective K n ε) : Prop where
  value : f.value = g.value
  isFiniteAt : ∀ x v, f.value x = .ok v → f.isFiniteAt x v = g.isFiniteAt x v
  gradient : ∀ x, f.FiniteAt x → f.gradient x = g.gradient x

end Objective

namespace LineSearch

variable {f g : Objective K n ε} {r : Ray K n}

theorem Step.Sound.finiteAt {s : Step K n} (sound : s.Sound f r) (finite : s.finite = true) :
    f.FiniteAt (r.point s.alpha) :=
  ⟨s.value, sound.value finite, sound.finite finite⟩

theorem Backtracking.trial_eq (same : f.SameWhereFinite g) (c : Backtracking K) :
    c.trial f r = c.trial g r := by
  funext done alpha
  rw [trial, trial, ← same.value]
  cases hvalue : f.value (r.point alpha) with
  | error e => rfl
  | ok v =>
      dsimp only [bind, Except.bind]
      rw [same.isFiniteAt _ v hvalue]

theorem StrongWolfe.trial_eq (same : f.SameWhereFinite g) (c : StrongWolfe K) :
    c.trial f r = c.trial g r := by
  funext done b
  rw [trial, trial, ← same.value]
  cases hvalue : f.value (r.point b.alpha) with
  | error e => rfl
  | ok v =>
      dsimp only [bind, Except.bind]
      rw [← same.isFiniteAt _ v hvalue]
      cases hfinite : f.isFiniteAt (r.point b.alpha) v with
      | false => rfl
      | true => rw [same.gradient _ ⟨v, hvalue, hfinite⟩]

theorem search_eq (same : f.SameWhereFinite g) (l : LineSearch K) (alpha : K) :
    l.search f r alpha = l.search g r alpha := by
  have hattempts : l.attempts f r alpha = l.attempts g r alpha := by
    cases l with
    | backtracking c => rw [attempts, attempts, c.trial_eq same]
    | strongWolfe c => rw [attempts, attempts, c.trial_eq same]
  rw [search_eq_map_attempts, search_eq_map_attempts, hattempts]

end LineSearch

namespace QuasiNewton

variable {f g : Objective K n ε} {c : Config K} {x : Vector K n}

/-- The search may have taken the gradient of the step that it hands back. If it has not, the
iteration takes it at the end of a step that is accepted, where the value is finite. -/
theorem State.advance_eq (same : f.SameWhereFinite g) (c : Config K) (i : Nat) (s : State K n) :
    s.advance f c i = s.advance g c i := by
  rw [advance, advance, ← LineSearch.search_eq same]
  cases hsearch : c.lineSearch.search f s.ray s.initialStep with
  | error e => rfl
  | ok step =>
      have sound := LineSearch.search_sound hsearch
      dsimp only [bind, Except.bind]
      split
      next haccepted =>
        rw [same.gradient _ (sound.finiteAt (sound.finite_of_accepted haccepted))]
      next => rfl

theorem iteration_eq (same : f.SameWhereFinite g) (c : Config K) :
    iteration f c = iteration g c := by
  have hadvance : ∀ i (s : State K n), s.advance f c i = s.advance g c i :=
    fun i s => State.advance_eq same c i s
  simp only [iteration, hadvance]

theorem start_eq (same : f.SameWhereFinite g) (hx : f.gradient x = g.gradient x) (c : Config K) :
    start f c x = start g c x := by
  have hevaluate : f.evaluate x = g.evaluate x := by
    rw [Objective.evaluate, Objective.evaluate, same.value, hx]
  rw [start, start, ← hevaluate]
  cases he : f.evaluate x with
  | error e => rfl
  | ok e =>
      have hvalue := (Objective.evaluate_eq_ok_iff.mp he).2.1
      have hfinite : (f.domain x && e.isFinite) = (g.domain x && e.isFinite) := by
        rw [Evaluation.isFinite, ← Bool.and_assoc, ← Bool.and_assoc]
        exact congrArg (· && allFinite e.gradient) (same.isFiniteAt x e.value hvalue)
      simp only [Except.mapError, bind, Except.bind, hfinite]

theorem minimize_eq (same : f.SameWhereFinite g) (hx : f.gradient x = g.gradient x) (c : Config K)
    (o : Observer σ (Event K n)) (w : σ) : minimize f x c o w = minimize g x c o w := by
  rw [minimize, minimize, start_eq same hx, iteration_eq same]

open Constrained (Barrier.surrogate Barrier.interior_of_isFiniteAt)

/-- Objectives that differ only in their gradients, and there only where the value is not finite,
cannot be told apart by a run from a point with a finite value. The surrogate of the barrier method
is finite only in the interior, so a run from there does not see its gradient elsewhere. -/
theorem minimize_eq_of_sameWhereFinite {K : Type} [Scalar K] :
    (∀ {n : Nat} {ε σ : Type} (f g : Objective K n ε) (x : Vector K n) (c : Config K)
      (o : Observer σ (Event K n)) (w : σ), f.SameWhereFinite g → f.FiniteAt x →
        minimize f x c o w = minimize g x c o w) ∧
    (∀ {n : Nat} {ε σ : Type} (f : Objective K n ε) (constraints : ConstraintSet K n) (t : K)
      (gradient : Vector K n → Except ε (Vector K n)) (x : Vector K n) (c : Config K)
      (o : Observer σ (Event K n)) (w : σ),
        (∀ y, constraints.interior y = true →
          (Barrier.surrogate f constraints t).gradient y = gradient y) →
        constraints.interior x = true →
          minimize (Barrier.surrogate f constraints t) x c o w =
            minimize { Barrier.surrogate f constraints t with gradient } x c o w) := by
  constructor
  · intro n ε σ f g x c o w same hx
    exact minimize_eq same (same.gradient x hx) c o w
  · intro n ε σ f constraints t gradient x c o w agree hx
    have same : (Barrier.surrogate f constraints t).SameWhereFinite
        { Barrier.surrogate f constraints t with gradient } := by
      refine ⟨rfl, fun _ _ _ => rfl, ?_⟩
      rintro y ⟨v, -, hfinite⟩
      exact agree y (Barrier.interior_of_isFiniteAt hfinite)
    exact minimize_eq same (agree x hx) c o w

/-- The function `1/x`. -/
def reciprocal : Objective Float 1 Empty :=
  .univariate (fun x => 1.0 / x) (fun x => -1.0 / (x * x))

/-- The function `1/x` with another gradient at the origin. -/
def reciprocalFlatAtPole : Objective Float 1 Empty where
  value := reciprocal.value
  gradient x :=
    if Scalar.isFinite (1.0 / x.get (Fin.last 0)) then reciprocal.gradient x else .ok zeros

/-- The gradient of a barrier, but zero where `x ≤ 3` does not hold strictly. -/
def barrierGradientInside (x : Vector Float 1) : Except Empty (Vector Float 1) :=
  if atMostThree.interior x then (Barrier.surrogate square atMostThree 1.0).gradient x
  else .ok zeros

theorem minimize_eq_of_sameWhereFinite_reciprocal :
    minimize reciprocal #v[1.0] {} .silent () =
        minimize reciprocalFlatAtPole #v[1.0] {} .silent () ∧
      minimize (Barrier.surrogate square atMostThree 1.0) #v[1.0] {} .silent () =
        minimize
          { Barrier.surrogate square atMostThree 1.0 with gradient := barrierGradientInside }
          #v[1.0] {} .silent () := by
  constructor
  · refine minimize_eq_of_sameWhereFinite.1 reciprocal reciprocalFlatAtPole #v[1.0] {} .silent ()
      ⟨rfl, fun _ _ _ => rfl, ?_⟩ ⟨_, rfl, by decide +kernel⟩
    rintro x ⟨v, hv, hfinite⟩
    cases hv
    exact (if_pos (Bool.and_eq_true_iff.mp hfinite).2).symm
  · refine minimize_eq_of_sameWhereFinite.2 square atMostThree 1.0 barrierGradientInside #v[1.0] {}
      .silent () ?_ (by decide +kernel)
    intro y hy
    exact (if_pos hy).symm

end QuasiNewton

end LocalOptimization
