import LocalOptimization.Proofs.LineSearch.Least
import LocalOptimization.Proofs.LineSearch.Visits
import LocalOptimization.Proofs.Univariate

/-!
# The first step that passes both tests

The strong Wolfe search ends with the first trial that passes the decrease test and the curvature
test. If no trial passes both, it hands back the earliest finite trial of lowest value, or the last
trial if none is finite.
-/

namespace LocalOptimization.LineSearch.StrongWolfe

variable {K : Type} [Scalar K] {n : Nat} {ε : Type}
variable {c : StrongWolfe K} {f : Objective K n ε} {r : Ray K n} {alpha a v : K}
  {b first : Bracket K} {g : Vector K n} {s : Step K n} {steps : List (Step K n)} {k : Nat}

/-- The bracket before any trial. -/
def Bracket.start (alpha : K) : Bracket K where
  lo := 0.0
  hi := none
  alpha := alpha

section Tests

/-- The value `v` at step length `a` is finite and passes the decrease test. -/
def Suffices (c : StrongWolfe K) (f : Objective K n ε) (r : Ray K n) (a v : K) : Prop :=
  f.isFiniteAt (r.point a) v = true ∧ ¬ r.value + c.c1 * a * r.slope + slack r < v

/-- The gradient `g` passes the curvature test. -/
def Flat (c : StrongWolfe K) (r : Ray K n) (g : Vector K n) : Prop :=
  Scalar.abs (dot g r.direction) ≤ c.c2 * Scalar.abs r.slope

/-- The step length `a` passes both tests. -/
def Acceptable (c : StrongWolfe K) (f : Objective K n ε) (r : Ray K n) (a : K) : Prop :=
  ∃ v g, f.value (r.point a) = .ok v ∧ c.Suffices f r a v ∧ f.gradient (r.point a) = .ok g ∧
    c.Flat r g

theorem suffices_iff :
    c.Suffices f r a v ↔ (!f.isFiniteAt (r.point a) v || c.tooHigh r a v) = false := by
  rw [Suffices, tooHigh, Bool.or_eq_false_iff, Bool.not_eq_false', decide_eq_false_iff_not]

theorem isFlat_iff : c.isFlat r (dot g r.direction) = true ↔ c.Flat r g :=
  decide_eq_true_iff

theorem acceptable_iff (hvalue : f.value (r.point a) = .ok v)
    (hgradient : f.gradient (r.point a) = .ok g) :
    c.Acceptable f r a ↔ c.Suffices f r a v ∧ c.Flat r g := by
  constructor
  · rintro ⟨v', g', hv, hsuffices, hg, hflat⟩
    rw [hvalue] at hv
    rw [hgradient] at hg
    cases hv
    cases hg
    exact ⟨hsuffices, hflat⟩
  · rintro ⟨hsuffices, hflat⟩
    exact ⟨v, g, hvalue, hsuffices, hgradient, hflat⟩

theorem not_acceptable_of_not_suffices (hvalue : f.value (r.point a) = .ok v)
    (h : ¬ c.Suffices f r a v) : ¬ c.Acceptable f r a := by
  rintro ⟨v', -, hv, hsuffices, -⟩
  rw [hvalue] at hv
  cases hv
  exact h hsuffices

end Tests

section Trial

theorem trial_cases (h : c.trial f r k b = .ok s) :
    s.alpha = b.alpha ∧ f.value (r.point b.alpha) = .ok s.value ∧
      ((¬ c.Suffices f r b.alpha s.value ∧ s.gradient = none ∧ s.satisfied = false) ∨
        c.Suffices f r b.alpha s.value ∧ ∃ g, f.gradient (r.point b.alpha) = .ok g ∧
          s.gradient = some g ∧ (s.satisfied = true ↔ c.Flat r g)) := by
  obtain ⟨value, hvalue, h⟩ := Except.bind_eq_ok_iff.mp h
  dsimp only at h
  split at h
  next htooLong =>
    cases h
    refine ⟨rfl, hvalue, .inl ⟨?_, rfl, rfl⟩⟩
    rw [suffices_iff, htooLong]
    exact Bool.noConfusion
  next hkeep =>
    obtain ⟨g, hg, h⟩ := Except.bind_eq_ok_iff.mp h
    cases h
    exact ⟨rfl, hvalue, .inr ⟨suffices_iff.mpr (Bool.eq_false_iff.mpr hkeep), g, hg, rfl,
      isFlat_iff⟩⟩

theorem satisfied_iff_acceptable (h : c.trial f r k b = .ok s) :
    s.satisfied = true ↔ c.Acceptable f r s.alpha := by
  obtain ⟨halpha, hvalue, ⟨htooLong, -, hunsatisfied⟩ | ⟨hsuffices, g, hg, -, hiff⟩⟩ :=
    trial_cases h
  · rw [halpha, hunsatisfied]
    exact iff_of_false Bool.false_ne_true (not_acceptable_of_not_suffices hvalue htooLong)
  · rw [halpha, acceptable_iff hvalue hg, hiff, and_iff_right hsuffices]

theorem eq_error_of_trial {e : ε} (h : c.trial f r k b = .error e) :
    f.value (r.point b.alpha) = .error e ∨ f.gradient (r.point b.alpha) = .error e := by
  rcases Except.bind_eq_error_iff.mp h with hvalue | ⟨value, -, h⟩
  · exact .inl hvalue
  · dsimp only at h
    split at h
    · cases h
    · rcases Except.bind_eq_error_iff.mp h with hgradient | ⟨g, -, h⟩
      · exact .inr hgradient
      · cases h

end Trial

section Search

/-- What a search hands back after these trials. -/
structure HandsBack (c : StrongWolfe K) (f : Objective K n ε) (r : Ray K n)
    (trials : List (Step K n)) (s : Step K n) : Prop where
  tried : s.Tried f r
  allTried : ∀ t ∈ trials, t.Tried f r
  mem : ∃ t ∈ trials, s = { t with evaluations := trials.length }
  /-- A satisfied search ends with the first trial that passes both tests. -/
  satisfied : s.satisfied = true →
    c.Suffices f r s.alpha s.value ∧ (∃ g, s.gradient = some g ∧ c.Flat r g) ∧
      ∃ before, trials = before ++ [s] ∧ ∀ t ∈ before, ¬ c.Acceptable f r t.alpha
  /-- Otherwise no trial passes both tests, and the earliest of the lowest finite ones is handed
  back, or the last trial if none is finite. -/
  exhausted : s.satisfied = false →
    trials.length = c.maxIters ∧ (∀ t ∈ trials, ¬ c.Acceptable f r t.alpha) ∧
      ((∃ before t after, trials = before ++ t :: after ∧
          s = { t with evaluations := trials.length } ∧ t.finite = true ∧
          (∀ u ∈ trials, u.finite = true → t.value ≤ u.value) ∧
          ∀ u ∈ before, u.finite = true → t.value < u.value) ∨
        (∀ t ∈ trials, t.finite = false) ∧ trials.getLast? = some s)

theorem not_acceptable_of_visits
    (visits : Visits (c.trial f r) (Bracket.next r) first steps b) :
    ∀ t ∈ steps, ¬ c.Acceptable f r t.alpha := by
  induction visits with
  | start => simp
  | next _ htrial hunsatisfied ih =>
      rw [List.forall_mem_append]
      refine ⟨ih, ?_⟩
      intro t ht
      obtain rfl := List.mem_singleton.mp ht
      rw [← satisfied_iff_acceptable htrial, hunsatisfied]
      exact Bool.false_ne_true

theorem handsBack_of_satisfied
    (hattempts : (strongWolfe c).attempts f r alpha = .ok (steps ++ [s]))
    (visits : Visits (c.trial f r) (Bracket.next r) first steps b)
    (htrial : c.trial f r steps.length b = .ok s) (hsatisfied : s.satisfied = true) :
    c.HandsBack f r (steps ++ [s]) s := by
  obtain ⟨tried, hevaluations⟩ := tried_of_trial htrial
  refine ⟨tried, tried_of_mem_attempts hattempts, ⟨s, by simp, ?_⟩, fun _ => ?_,
    by simp [hsatisfied]⟩
  · rw [List.length_append, List.length_singleton, ← hevaluations]
  · obtain ⟨halpha, -, ⟨-, -, hunsatisfied⟩ | ⟨hsuffices, g, -, hgradient, hiff⟩⟩ :=
      trial_cases htrial
    · rw [hsatisfied] at hunsatisfied
      cases hunsatisfied
    · exact ⟨halpha ▸ hsuffices, ⟨g, hgradient, hiff.mp hsatisfied⟩, steps, rfl,
        not_acceptable_of_visits visits⟩

theorem Memory.last_foldl_add (m : Memory K n) (hne : steps ≠ []) :
    (steps.foldl Memory.add m).last = steps.getLast hne := by
  obtain ⟨before, last, rfl⟩ := (List.eq_nil_or_concat' steps).resolve_left hne
  rw [List.foldl_concat, List.getLast_concat]
  rfl

theorem evaluations_getLast (hattempts : (strongWolfe c).attempts f r alpha = .ok steps)
    (hne : steps ≠ []) : (steps.getLast hne).evaluations = steps.length := by
  have hlast := evaluations_of_collect (m := Memory.start alpha)
    (fun _ _ _ htrial => (tried_of_trial htrial).2) hattempts rfl
  rwa [Memory.last_foldl_add _ hne, Nat.zero_add] at hlast

theorem select_of_satisfied (steps : List (Step K n)) (hsatisfied : s.satisfied = true) :
    (strongWolfe c).select alpha (steps ++ [s]) = s := by
  rw [select, Memory.select, Memory.last_foldl_add _ (by simp), List.getLast_concat,
    if_pos hsatisfied]

theorem select_of_unsatisfied (hattempts : (strongWolfe c).attempts f r alpha = .ok steps)
    (hunsatisfied : ∀ s ∈ steps, s.satisfied = false) (hne : steps ≠ []) :
    (strongWolfe c).select alpha steps =
      { (steps.foldl Memory.add (Memory.start alpha)).best.getD (steps.getLast hne) with
        evaluations := steps.length } := by
  rw [select]
  dsimp only
  rw [Memory.select, Memory.last_foldl_add _ hne, hunsatisfied _ (List.getLast_mem hne),
    if_neg Bool.false_ne_true, Memory.handBack, Memory.last_foldl_add _ hne,
    evaluations_getLast hattempts hne]

theorem handsBack_of_exhausted [OrderedScalar K]
    (hattempts : (strongWolfe c).attempts f r alpha = .ok steps)
    (visits : Visits (c.trial f r) (Bracket.next r) first steps b) (hne : steps ≠ [])
    (hlength : steps.length = c.maxIters) :
    c.HandsBack f r steps ((strongWolfe c).select alpha steps) := by
  have least := isLeast_of_attempts hattempts
  have earliest := isEarliest_of_attempts hattempts
  rw [select_of_unsatisfied hattempts visits.unsatisfied hne]
  generalize (steps.foldl Memory.add (Memory.start alpha)).best = best at least earliest ⊢
  have hmem := least.getD_mem hne
  have tried := tried_of_mem_attempts hattempts _ hmem
  refine ⟨⟨tried.value, tried.finite, tried.gradient, tried.satisfied⟩,
    tried_of_mem_attempts hattempts, ⟨_, hmem, rfl⟩, ?_, ?_⟩
  · intro hsatisfied
    rw [visits.unsatisfied _ hmem] at hsatisfied
    cases hsatisfied
  · refine fun _ => ⟨hlength, not_acceptable_of_visits visits, ?_⟩
    cases hbest : best with
    | none =>
        have hlast :
            { steps.getLast hne with evaluations := steps.length } = steps.getLast hne := by
          rw [← evaluations_getLast hattempts hne]
        refine .inr ⟨fun t ht => ?_, ?_⟩
        · rw [Bool.eq_false_iff]
          intro hfinite
          obtain ⟨t', ht', -⟩ := least.le t ht hfinite
          rw [hbest] at ht'
          cases ht'
        · rw [Option.getD_none, hlast, List.getLast?_eq_getLast_of_ne_nil hne]
    | some t =>
        obtain ⟨before, after, hsteps, hbefore⟩ := earliest t hbest
        refine .inl ⟨before, t, after, hsteps, rfl, (least.mem t hbest).2, ?_, hbefore⟩
        intro u hu hfinite
        obtain ⟨b, hb, hle⟩ := least.le u hu hfinite
        rw [hbest] at hb
        cases hb
        exact hle

theorem ends_search (c : StrongWolfe K) (f : Objective K n ε) (r : Ray K n) (alpha : K) :
    Ends (c.trial f r) (Bracket.next r) (.start alpha) c.maxIters
      ((strongWolfe c).attempts f r alpha) :=
  ends_collect _ _ _ _

theorem search_eq_trials_of_visits
    (visits : Visits (c.trial f r) (Bracket.next r) (.start alpha) steps b)
    (hallowed : steps.length ≤ c.maxIters) :
    c.search f r alpha = c.trials f r (c.maxIters - steps.length) steps.length b
      (steps.foldl Memory.add (Memory.start alpha)) := by
  induction visits with
  | start => rfl
  | @next steps b s visits htrial hunsatisfied ih =>
      rw [List.length_append, List.length_singleton] at hallowed ⊢
      have hleft : c.maxIters - steps.length = c.maxIters - (steps.length + 1) + 1 := by omega
      rw [ih (by omega), hleft, trials_succ, htrial, List.foldl_concat]
      simp [bind, Except.bind, hunsatisfied]

/-- A search fails only where an evaluation does that it makes. Otherwise it hands back the first
trial that passes both tests, or else the earliest of the lowest finite trials, or the last trial if
none is finite. -/
theorem hands_back_of_search [OrderedScalar K] (hbudget : 1 ≤ c.maxIters) :
    (∀ e, c.search f r alpha = .error e →
      ∃ steps b, Visits (c.trial f r) (Bracket.next r) (.start alpha) steps b ∧
        steps.length < c.maxIters ∧
        (f.value (r.point b.alpha) = .error e ∨ f.gradient (r.point b.alpha) = .error e)) ∧
    ∀ s, c.search f r alpha = .ok s →
      ∃ trials, (strongWolfe c).attempts f r alpha = .ok trials ∧ c.HandsBack f r trials s := by
  have hends := ends_search c f r alpha
  have hsearch : c.search f r alpha =
      ((strongWolfe c).attempts f r alpha).map ((strongWolfe c).select alpha) :=
    search_eq_map_attempts (strongWolfe c) alpha
  constructor
  · intro e he
    rw [hsearch, Except.map_eq_error_iff] at he
    rw [he] at hends
    cases hends with
    | failed visits hallowed htrial => exact ⟨_, _, visits, hallowed, eq_error_of_trial htrial⟩
  · intro s hs
    rw [hsearch] at hs
    obtain ⟨trials, hattempts, rfl⟩ := Except.map_eq_ok_iff.mp hs
    refine ⟨trials, hattempts, ?_⟩
    rw [hattempts] at hends
    cases hends with
    | satisfied visits hallowed htrial hsatisfied =>
        rw [select_of_satisfied _ hsatisfied]
        exact handsBack_of_satisfied hattempts visits htrial hsatisfied
    | exhausted visits hlength =>
        refine handsBack_of_exhausted hattempts visits ?_ hlength
        rintro rfl
        rw [← hlength] at hbudget
        simp at hbudget

end Search

section Example

/-- A direction in which the square rises from 1. -/
def uphill : Ray Float 1 where
  x := .ofFn ![1.0]
  value := 1.0
  gradient := .ofFn ![2.0]
  direction := .ofFn ![1.0]

theorem hands_back_of_search_square :
    ∃ s trials, search { maxIters := 3 } square uphill 1.0 = .ok s ∧
      (strongWolfe { maxIters := 3 }).attempts square uphill 1.0 = .ok trials ∧
      HandsBack { maxIters := 3 } square uphill trials s ∧ s.satisfied = false ∧
      s.alpha.toBits = (0.25 : Float).toBits := by
  have hrun : (search { maxIters := 3 } square uphill 1.0).toOption.map
      (fun s => (s.satisfied, s.alpha.toBits)) = some (false, (0.25 : Float).toBits) := by
    decide +kernel
  obtain ⟨s, hsearch, hs⟩ := Except.toOption_map_eq_some_iff.mp hrun
  rw [Prod.mk.injEq] at hs
  obtain ⟨trials, hattempts, handsBack⟩ := (hands_back_of_search (by decide)).2 s hsearch
  exact ⟨s, trials, hsearch, hattempts, handsBack, hs⟩

end Example

end LocalOptimization.LineSearch.StrongWolfe
