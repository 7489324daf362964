import Mathlib
import LocalOptimization.Proofs.TrustRegion.Transition
import LocalOptimization.Proofs.Univariate

/-!
# Rejected steps

The threshold for acceptance lies below the ratio at which the radius shrinks, so that a rejected
step shrinks the radius, and a run does not try it again. The exception is a ratio that is NaN: it
neither exceeds the one nor lies below the other. It comes from a trial with a finite value whose
predicted reduction is NaN, as it is where the Hessian is infinite, or from two infinite reductions.
-/

namespace LocalOptimization.TrustRegion

variable {n : Nat} {ε σ : Type} {f : Objective Float n ε} {c : Config Float}
variable {before after : Event Float n}

section Ratio

variable {model : Model Float n} {trial : Trial Float n} {value : Float}

namespace Transition

theorem quarters_of_rejected (transition : Transition f c before after model trial value)
    (valid : c.Valid) (hrejected : after.record.accepted = false)
    (hratio : after.record.ratio.isNaN = false) :
    after.record.radius = before.record.radius * 0.25 := by
  have heta := ((Double.le_iff _ _).mp valid.eta_nonneg).2.1
  have hle : after.record.ratio ≤ c.eta :=
    OrderedScalar.le_of_not_lt (transition.rejected hrejected).ratio hratio heta
  exact transition.shrinks (OrderedScalar.lt_of_le_of_lt hle valid.eta_lt)

theorem radius_eq_of_isNaN (transition : Transition f c before after model trial value)
    (hratio : after.record.ratio.isNaN = true) : after.record.radius = before.record.radius := by
  apply transition.keeps
  · intro hshrinks
    rw [Double.lt_iff, hratio] at hshrinks
    cases hshrinks.1
  · rintro ⟨hgrows, -⟩
    rw [Double.lt_iff, hratio] at hgrows
    cases hgrows.2.1

theorem isNaN_ratio_iff (transition : Transition f c before after model trial value)
    (sound : before.Sound f c) :
    after.record.ratio.isNaN = true ↔
      f.isFiniteAt (before.record.x + trial.p) value = true ∧
        (after.predictedReduction.isNaN = true ∨
          0.0 < after.predictedReduction ∧ after.predictedReduction.isInf = true ∧
            after.actualReduction.isInf = true) := by
  rw [transition.ratio]
  cases hfinite : f.isFiniteAt (before.record.x + trial.p) value with
  | false =>
      have hinfinity : (-Scalar.infinity : Float).isNaN = false := by decide
      rw [reductionRatio_of_not_finite, hinfinity]
      simp only [Bool.false_eq_true, false_and]
  | true =>
      have hactual : after.actualReduction.isNaN = false := by
        rw [transition.actual]
        exact Double.isNaN_sub sound.finite (Bool.and_eq_true_iff.mp hfinite).2
      by_cases hnonpos : after.predictedReduction ≤ 0.0
      · have hnumber := ((Double.le_iff _ _).mp hnonpos).1
        have hzero : (0.0 : Float).isNaN = false := by decide
        rw [reductionRatio_of_nonpos hnonpos, hzero, hnumber]
        simp only [Bool.false_eq_true, true_and, false_or, false_iff, not_and]
        intro hpos
        exact absurd (OrderedScalar.lt_of_lt_of_le hpos hnonpos) (OrderedScalar.lt_irrefl _)
      · rw [reductionRatio_of_not_nonpos hnonpos, Double.isNaN_div_iff hactual hnonpos]
        cases hpredicted : after.predictedReduction.isNaN with
        | true => simp
        | false =>
            have hpos : 0.0 < after.predictedReduction := by
              by_contra h
              exact hnonpos (OrderedScalar.le_of_not_lt h hpredicted (by decide))
            simp only [Bool.false_eq_true, false_or, true_and, hpos]
            exact and_comm

end Transition

end Ratio

section Repetition

/-- The objective decreases, or it stays and the radius shrinks. -/
def Progresses (before after : Event Float n) : Prop :=
  after.record.objective < before.record.objective ∨
    after.record.objective = before.record.objective ∧ after.record.radius < before.record.radius

theorem Progresses.trans {e₁ e₂ e₃ : Event Float n} (h₁ : Progresses e₁ e₂)
    (h₂ : Progresses e₂ e₃) : Progresses e₁ e₃ := by
  rcases h₁ with hless | ⟨heq, hradius⟩
  · rcases h₂ with hless' | ⟨heq', -⟩
    · exact .inl (Double.lt_trans hless' hless)
    · exact .inl (heq' ▸ hless)
  · rcases h₂ with hless' | ⟨heq', hradius'⟩
    · exact .inl (heq ▸ hless')
    · exact .inr ⟨heq'.trans heq, Double.lt_trans hradius' hradius⟩

theorem Progresses.ne (h : Progresses before after) (hbefore : before.Sound f c)
    (hafter : after.Sound f c) :
    ¬ (before.record.x = after.record.x ∧ before.record.radius = after.record.radius) := by
  rintro ⟨hx, hradius⟩
  rcases h with hless | ⟨-, hless⟩
  · have hvalue := hx ▸ hbefore.value
    rw [hafter.value, Except.ok.injEq] at hvalue
    rw [hvalue] at hless
    exact OrderedScalar.lt_irrefl _ hless
  · rw [hradius] at hless
    exact OrderedScalar.lt_irrefl _ hless

theorem Follows.progresses (follows : Follows f c before after) (valid : c.Valid)
    (hmin : 0.0 < c.minRadius) (sound : before.Sound f c)
    (hratio : after.record.ratio.isNaN = false) : Progresses before after := by
  obtain ⟨model, trial, value, transition⟩ := follows
  cases haccepted : after.record.accepted with
  | true => exact .inl (transition.accepted haccepted).decreases
  | false =>
      have hnumber := ((Double.le_iff _ _).mp sound.radius_nonneg).2.1
      have hlarge : c.minRadius ≤ before.record.radius :=
        OrderedScalar.le_of_not_lt transition.large
          (OrderedScalar.isNaN_of_isFinite valid.minRadius) hnumber
      have hfinite := Double.isFinite_of_le sound.radius_nonneg sound.radius_le
        (Bool.and_eq_true_iff.mp valid.maxRadius).1
      refine .inr ⟨(transition.rejected haccepted).objective, ?_⟩
      rw [transition.quarters_of_rejected valid haccepted hratio]
      exact Double.mul_quarter_lt (OrderedScalar.lt_of_lt_of_le hmin hlarge) hfinite

end Repetition

/-- A rejected step quarters the radius, unless its ratio is NaN. Then the radius stays as it is. -/
structure Rejects (f : Objective Float n ε) (c : Config Float) (before after : Event Float n)
    (model : Model Float n) (trial : Trial Float n) (value : Float) : Prop where
  transition : Transition f c before after model trial value
  quarters : after.record.ratio.isNaN = false →
    after.record.radius = before.record.radius * 0.25
  stays : after.record.ratio.isNaN = true → after.record.radius = before.record.radius
  isNaN_ratio_iff : after.record.ratio.isNaN = true ↔
    f.isFiniteAt (before.record.x + trial.p) value = true ∧
      (after.predictedReduction.isNaN = true ∨
        0.0 < after.predictedReduction ∧ after.predictedReduction.isInf = true ∧
          after.actualReduction.isInf = true)

/-- Rejected steps shrink the radius where their ratio is a number, and only there. A run in which
all ratios are numbers does not come to the same point with the same radius again. -/
theorem radius_of_rejected (f : Objective Float n ε) (x : Vector Float n) (c : Config Float)
    (o : Observer σ (Event Float n)) (w : σ) :
    ∃ events, Shows f x c o w events ∧
      (events.IsChain fun before after => after.record.accepted = false →
        ∃ model trial value, Rejects f c before after model trial value) ∧
      (0.0 < c.minRadius → (∀ e ∈ events, e.record.ratio.isNaN = false) →
        events.Pairwise fun before after =>
          ¬ (before.record.x = after.record.x ∧ before.record.radius = after.record.radius)) := by
  obtain ⟨events, shown, descends⟩ := exists_shows f x c o w
  refine ⟨events, shown, ?_⟩
  rcases shown.nil_or_start with rfl | ⟨s, hstart, -⟩
  · exact ⟨.nil, fun _ _ => .nil⟩
  · have valid := (start_eq_ok_iff.mp hstart).1
    constructor
    · refine descends.follows.imp_of_mem_imp fun before after hbefore _ h hrejected => ?_
      obtain ⟨model, trial, value, transition⟩ := h
      exact ⟨model, trial, value, transition,
        transition.quarters_of_rejected valid hrejected, transition.radius_eq_of_isNaN,
        transition.isNaN_ratio_iff (descends.sound before hbefore)⟩
    · intro hmin hratios
      have hprogress : events.IsChain Progresses :=
        descends.follows.imp_of_mem_imp fun before after hbefore hafter h =>
          h.progresses valid hmin (descends.sound before hbefore) (hratios after hafter)
      have : Trans (Progresses (n := n)) (Progresses (n := n)) (Progresses (n := n)) :=
        ⟨Progresses.trans⟩
      refine hprogress.pairwise.imp_of_mem fun hbefore hafter h => ?_
      exact h.ne (descends.sound _ hbefore) (descends.sound _ hafter)

/-- The function `|x|√|x| + x`, whose second derivative is infinite at 0. -/
def cusp : Objective Float 1 Empty :=
  { Objective.univariate (fun t => t.abs * t.abs.sqrt + t)
      (fun t => 1.5 * (if t < 0.0 then -t.abs.sqrt else t.abs.sqrt) + 1.0) with
    hessian := fun x => .ok (some (.replicate 1 (x.map fun t => 0.75 / t.abs.sqrt))) }

/-- The first step from 1 is accepted and ends at 0. The second is rejected there, and the radius
stays as it is. -/
theorem radius_stays_at_cusp :
    ∃ sol start first second,
      minimizeUnobserved cusp #v[1.0] { subproblem := .cauchy, maxIters := 2 } = .ok sol ∧
      sol.history.toList = [start, first, second] ∧ second.accepted = false ∧
      second.radius ≠ first.radius * 0.25 := by
  have hrun : (minimizeUnobserved cusp #v[1.0]
      { subproblem := .cauchy, maxIters := 2 }).toOption.map (fun sol =>
        sol.history.toList.map fun r => (r.accepted, r.radius)) =
      some [(false, 1.0), (true, 2.0), (false, 2.0)] := by decide +kernel
  obtain ⟨sol, h, hrecords⟩ := Except.toOption_map_eq_some_iff.mp hrun
  obtain ⟨start, rest, hstart, -, hrest⟩ := List.map_eq_cons_iff.mp hrecords
  obtain ⟨first, rest, rfl, hfirst, hrest⟩ := List.map_eq_cons_iff.mp hrest
  obtain ⟨second, rest, rfl, hsecond, hrest⟩ := List.map_eq_cons_iff.mp hrest
  obtain rfl := List.map_eq_nil_iff.mp hrest
  rw [Prod.mk.injEq] at hfirst hsecond
  refine ⟨sol, start, first, second, h, hstart, hsecond.1, ?_⟩
  rw [hfirst.2, hsecond.2]
  decide

end LocalOptimization.TrustRegion
