import Mathlib
import LocalOptimization.Proofs.Curvature.Descent
import LocalOptimization.Proofs.Univariate

/-!
# Runs that descend

A run offers its model the pairs of its steps, one by one, and asks for a direction only where the
gradient has not vanished. In exact arithmetic the model answers with a direction of descent, so
that steepest descent never has to stand in for it.
-/

namespace LocalOptimization.QuasiNewton

variable {n : Nat} {ε : Type} {f : Objective ℝ n ε} {c : Config ℝ} {x : Vector ℝ n}

namespace State

theorem moveTo_eq {K : Type} [Scalar K] (s : State K n) (i : Nat) (alpha : K)
    (next : Evaluation K n) :
    let p := (next.x - s.current.x, next.gradient - s.current.gradient)
    let t : State K n := {
      current := next
      model := s.model.learn p
      scaled := s.scaled || (s.model.update? p.1 p.2).isSome }
    s.moveTo i alpha next = (t, t.event i alpha (s.model.update? p.1 p.2).isNone) := by
  simp only [moveTo, Curvature.learn]
  cases s.model.update? (next.x - s.current.x) (next.gradient - s.current.gradient) <;> simp

theorem exists_learn_of_advance {i : Nat} {s t : State ℝ n} {event : Event ℝ n}
    (h : s.advance f c i = .ok (some (t, event))) : ∃ p, t.model = s.model.learn p := by
  obtain ⟨step, gradient, -, -, -, hmove⟩ := exists_step_of_advance h
  rw [moveTo_eq] at hmove
  exact ⟨_, congrArg (·.1.model) hmove⟩

theorem direction_of_descent {s : State ℝ n}
    (h : dot s.current.gradient (s.model.direction s.current.gradient) < 0) :
    s.direction = s.model.direction s.current.gradient := by
  rw [direction, Exact.zero_eq]
  exact if_pos h

end State

theorem Reaches.model_sound {events : List (Event ℝ n)} {s : State ℝ n}
    (reaches : Reaches f c x events s) : s.model.Sound := by
  apply reaches.invariant
  · intro first hstart
    obtain ⟨-, -, e, -, -, rfl⟩ := start_eq_ok_iff.mp hstart
    exact Curvature.sound_initial c.method
  · intro i s t event sound hadvance
    obtain ⟨p, hmodel⟩ := State.exists_learn_of_advance hadvance
    rw [hmodel]
    exact sound.learn p

theorem Reaches.validate_eq_ok {events : List (Event ℝ n)} {s : State ℝ n}
    (reaches : Reaches f c x events s) : c.validate = .ok () := by
  obtain ⟨first, hstart, -⟩ := reaches
  exact (start_eq_ok_iff.mp hstart).1

theorem Config.validate_of_gradientTol_pos {tolerance : ℝ} (h : 0 < tolerance) :
    ({ gradientTol := tolerance } : Config ℝ).validate = .ok () := by
  have hdecrease : Scalar.inOpenUnit (1e-4 : ℝ) = true := by norm_num [Exact.inOpenUnit_iff]
  have hcurvature : Scalar.inOpenUnit (0.9 : ℝ) = true := by norm_num [Exact.inOpenUnit_iff]
  have horder : ¬ (0.9 : ℝ) ≤ 1e-4 := by norm_num
  refine validate_eq_ok_iff.mpr ⟨(Exact.isPositive_iff tolerance).mpr h, nofun, ?_⟩
  simp [LineSearch.validate, LineSearch.StrongWolfe.validate, hdecrease, hcurvature, horder]

theorem gradient_ne_zeros {s : State ℝ n} (hvalid : c.validate = .ok ())
    (running : (iteration f c).converged s = false) : s.current.gradient ≠ zeros := by
  have htol := (Exact.isPositive_iff _).mp (Config.validate_eq_ok_iff.mp hvalid).1
  have hlarge : ¬ s.current.gradientNorm < c.gradientTol := of_decide_eq_false running
  intro hzero
  apply hlarge
  rw [Evaluation.gradientNorm, hzero, Exact.norm_zeros]
  exact htol

/-- Whatever pairs it was offered, every curvature model proposes a direction of descent where the
gradient does not vanish. A run that goes on from a state therefore searches along the direction of
its model. -/
theorem descends_along_model :
    (∀ {n : Nat} (choice : Curvature.Choice) (pairs : List (Vector ℝ n × Vector ℝ n))
      (g : Vector ℝ n), g ≠ zeros →
        dot g ((pairs.foldl Curvature.learn choice.initial).direction g) < 0) ∧
    (∀ {n : Nat} {ε : Type} (f : Objective ℝ n ε) (c : Config ℝ) (x : Vector ℝ n)
      (events : List (Event ℝ n)) (s : State ℝ n), Reaches f c x events s →
        (iteration f c).converged s = false →
          dot s.current.gradient (s.model.direction s.current.gradient) < 0 ∧
          s.direction = s.model.direction s.current.gradient) := by
  constructor
  · intro n choice pairs g hg
    have sound := Curvature.sound_foldl_learn (Curvature.sound_initial choice) pairs
    exact sound.dot_direction_neg hg
  · intro n ε f c x events s reaches running
    have hg := gradient_ne_zeros reaches.validate_eq_ok running
    have hdescends := reaches.model_sound.dot_direction_neg hg
    exact ⟨hdescends, State.direction_of_descent hdescends⟩

/-- The function `x²`. -/
noncomputable def parabola : Objective ℝ 1 Empty :=
  .univariate (fun t => t * t) (fun t => 2 * t)

theorem exists_reaches_parabola : ∃ s, Reaches parabola {} #v[1] [] s ∧
    s.current.gradient = #v[2 * 1] := by
  let e : Evaluation ℝ 1 := { x := #v[1], value := 1 * 1, gradient := #v[2 * 1] }
  have he : parabola.evaluate #v[1] = .ok e := Objective.evaluate_eq_ok_iff.mpr ⟨rfl, rfl, rfl⟩
  have hfinite : (parabola.domain #v[1] && e.isFinite) = true := by
    rw [Evaluation.isFinite, Exact.allFinite]
    rfl
  have hvalid : ({} : Config ℝ).validate = .ok () :=
    Config.validate_of_gradientTol_pos (by norm_num)
  have hstart := start_eq_ok_iff.mpr ⟨hvalid, Exact.allFinite #v[1], e, he, hfinite, rfl⟩
  exact ⟨_, ⟨_, hstart, .nil 0 _⟩, rfl⟩

/-- A curved pair, a flat one and another curved one. -/
def threePairs : List (Vector ℝ 1 × Vector ℝ 1) :=
  [(#v[1], #v[4]), (#v[1], #v[0]), (#v[1], #v[2])]

noncomputable def afterThreePairs (choice : Curvature.Choice) : Curvature ℝ 1 :=
  threePairs.foldl Curvature.learn choice.initial

theorem descends_along_model_parabola :
    (dot #v[3] ((afterThreePairs (.lbfgs 1)).direction #v[3]) < 0 ∧
      dot #v[3] ((afterThreePairs .sr1).direction #v[3]) < 0 ∧
      dot #v[3] ((afterThreePairs .dfp).direction #v[3]) < 0) ∧
    ∃ s, Reaches parabola {} #v[1] [] s ∧ (iteration parabola {}).converged s = false ∧
      s.direction = s.model.direction s.current.gradient := by
  constructor
  · have hg : (#v[3] : Vector ℝ 1) ≠ zeros := by
      intro h
      have hentry := congrArg (fun v => v.get 0) h
      norm_num [Vector.get_eq_getElem] at hentry
    exact ⟨descends_along_model.1 (.lbfgs 1) threePairs _ hg,
      descends_along_model.1 .sr1 threePairs _ hg, descends_along_model.1 .dfp threePairs _ hg⟩
  · obtain ⟨s, reaches, hgradient⟩ := exists_reaches_parabola
    have running : (iteration parabola {}).converged s = false := by
      apply decide_eq_false
      rw [Evaluation.gradientNorm, hgradient, Exact.norm_lt_iff (by norm_num), Exact.dot_eq_sum]
      norm_num [Vector.get_eq_getElem]
    exact ⟨s, reaches, running, (descends_along_model.2 parabola {} #v[1] [] s reaches running).2⟩

end LocalOptimization.QuasiNewton
