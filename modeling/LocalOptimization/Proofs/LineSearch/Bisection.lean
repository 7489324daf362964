import LocalOptimization.Proofs.LineSearch.Bracket

/-!
# The end of a strong Wolfe search

Along a smooth objective that is bounded below no step that passes the decrease test is far. The
trials therefore stop doubling, and once the bracket has an upper end every trial halves it. It
cannot become arbitrarily short, since the slope at its lower end differs by a fixed amount from the
slope at some step inside. So a search with enough trials is satisfied.
-/

namespace LocalOptimization.LineSearch.StrongWolfe

open Set

variable {n : Nat} {ε : Type} {c : StrongWolfe ℝ} {f : Objective ℝ n ε} {r : Ray ℝ n}
  {phi slope : ℝ → ℝ} {alpha low top : ℝ} {b : Bracket ℝ} {steps : List (Step ℝ n)} {k : Nat}

section Doubling

/-- No step beyond this passes the decrease test of an objective that is at least `low`. -/
noncomputable def reach (c : StrongWolfe ℝ) (r : Ray ℝ n) (low : ℝ) : ℝ :=
  (r.value + slack r - low) / (c.c1 * -r.slope)

theorem Bracket.Sound.lo_le_reach (sound : b.Sound c r phi slope) (descent : r.slope < 0)
    (hc1 : 0 < c.c1) (bounded : ∀ a, 0 ≤ a → low ≤ phi a) : b.lo ≤ reach c r low := by
  have hlow : low ≤ c.allowed r b.lo := (bounded b.lo sound.nonneg).trans sound.decreases
  rw [reach, le_div_iff₀ (mul_pos hc1 (neg_pos.mpr descent))]
  rw [allowed] at hlow
  linarith

/-- After `k` trials from `alpha`, the next trial has doubled as often if the bracket has no upper
end. Otherwise it halves a bracket that narrows at the same rate. -/
structure Bracket.Narrows (alpha top : ℝ) (k : Nat) (b : Bracket ℝ) : Prop where
  doubled : b.hi = none → alpha * 2 ^ k ≤ b.alpha ∧ b.alpha ≤ alpha + 2 * b.lo
  halved : ∀ hi, b.hi = some hi →
    b.alpha = (b.lo + hi) / 2 ∧ hi ≤ top ∧ (hi - b.lo) * (alpha * 2 ^ k) ≤ top * top * 2

namespace Bracket.Narrows

theorem start (alpha top : ℝ) : (Bracket.start alpha).Narrows alpha top 0 := by
  refine ⟨fun _ => ?_, nofun⟩
  rw [lo_start, pow_zero, mul_one, mul_zero, add_zero]
  exact ⟨le_refl alpha, le_refl alpha⟩

theorem cutAbove (narrows : b.Narrows alpha top k) (sound : b.Sound c r phi slope)
    (halpha : 0 < alpha) (htop : alpha + 2 * b.lo ≤ top) :
    b.cutAbove.Narrows alpha top (k + 1) := by
  refine ⟨nofun, ?_⟩
  rintro hi ⟨⟩
  refine ⟨half_mul _, ?_⟩
  change b.alpha ≤ top ∧ (b.alpha - b.lo) * (alpha * 2 ^ (k + 1)) ≤ top * top * 2
  have hnonneg := sound.nonneg
  have hlt := sound.lo_lt
  cases hhi : b.hi with
  | none =>
      obtain ⟨hdoubled, hle⟩ := narrows.doubled hhi
      refine ⟨hle.trans htop, ?_⟩
      calc
        (b.alpha - b.lo) * (alpha * 2 ^ (k + 1))
            = (b.alpha - b.lo) * (alpha * 2 ^ k) * 2 := by ring
        _ ≤ top * top * 2 := by
            have hshort : b.alpha - b.lo ≤ top := by linarith
            have hgrown : alpha * 2 ^ k ≤ top := hdoubled.trans (hle.trans htop)
            gcongr
            linarith
  | some hi =>
      obtain ⟨hmiddle, hle, hwidth⟩ := narrows.halved hi hhi
      have hinside := sound.lt_hi hi hhi
      refine ⟨by linarith, ?_⟩
      rw [hmiddle]
      calc
        ((b.lo + hi) / 2 - b.lo) * (alpha * 2 ^ (k + 1)) = (hi - b.lo) * (alpha * 2 ^ k) := by ring
        _ ≤ top * top * 2 := hwidth

theorem cutBelow (narrows : b.Narrows alpha top k) (halpha : 0 < alpha) :
    b.cutBelow.Narrows alpha top (k + 1) := by
  constructor
  · intro hnone
    have hhi : b.hi = none := hnone
    obtain ⟨hdoubled, -⟩ := narrows.doubled hhi
    simp only [Bracket.cutBelow, hhi, Exact.two_eq]
    refine ⟨?_, by linarith⟩
    rw [pow_succ]
    linarith
  · intro hi hsome
    have hhi : b.hi = some hi := hsome
    obtain ⟨hmiddle, hle, hwidth⟩ := narrows.halved hi hhi
    simp only [Bracket.cutBelow, hhi, Exact.isFinite, if_true]
    refine ⟨half_mul _, hle, ?_⟩
    rw [hmiddle]
    calc
      (hi - (b.lo + hi) / 2) * (alpha * 2 ^ (k + 1)) = (hi - b.lo) * (alpha * 2 ^ k) := by ring
      _ ≤ top * top * 2 := hwidth

end Bracket.Narrows

theorem narrows_of_visits (smooth : Smooth f r phi slope) (descent : r.slope < 0)
    (halpha : 0 < alpha) (hc1 : 0 < c.c1) (hc2 : c.c2 < 1) (bounded : ∀ a, 0 ≤ a → low ≤ phi a)
    (visits : Visits (c.trial f r) (Bracket.next r) (.start alpha) steps b) :
    b.Narrows alpha (alpha + 2 * reach c r low) steps.length := by
  induction visits with
  | start => exact .start alpha _
  | next visits htrial hunsatisfied narrows =>
      have sound := sound_of_visits smooth descent halpha hc2 visits
      have hreach := sound.lo_le_reach descent hc1 bounded
      rw [List.length_append, List.length_singleton]
      rcases next_cases smooth descent (le_of_lt sound.alpha_pos) htrial hunsatisfied with
        ⟨hnext, -⟩ | ⟨hnext, -⟩
      · rw [hnext]
        exact narrows.cutAbove sound halpha (by linarith)
      · rw [hnext]
        exact narrows.cutBelow halpha

end Doubling

section Halving

/-- The slope changes by a fixed amount inside a bracket, which takes a length. -/
theorem exists_least_width (smooth : Smooth f r phi slope) (descent : r.slope < 0)
    (hc1 : 0 < c.c1) (hc : c.c1 < c.c2) (top : ℝ) :
    ∃ width > 0, ∀ b hi, Bracket.Sound c r phi slope b → b.hi = some hi → hi ≤ top →
      width ≤ hi - b.lo := by
  have hcontinuous : ContinuousOn slope (Icc 0 top) :=
    smooth.continuous.mono Icc_subset_Ici_self
  have huniform := isCompact_Icc.uniformContinuousOn_of_continuous hcontinuous
  have hgap : 0 < c.c1 * r.slope - c.c2 * r.slope :=
    sub_pos.mpr (mul_lt_mul_of_neg_right hc descent)
  obtain ⟨width, hpos, hclose⟩ := Metric.uniformContinuousOn_iff.mp huniform _ hgap
  refine ⟨width, hpos, fun b hi sound hhi htop => ?_⟩
  obtain ⟨a, hlo, hlt, -, hlevel⟩ := sound.exists_level smooth descent hc1 hc hhi
  have hnonneg := sound.nonneg
  have hsteep := sound.steep
  by_contra hshort
  -- The slopes at `a` and at the lower end would be closer than the constants of both tests allow.
  have hnear := hclose a ⟨by linarith, by linarith⟩ b.lo ⟨hnonneg, by linarith⟩
    (by rw [Real.dist_eq, abs_of_pos (sub_pos.mpr hlo)]; linarith)
  rw [Real.dist_eq, hlevel] at hnear
  have hjump := le_abs_self (c.c1 * r.slope - slope b.lo)
  linarith

theorem exists_length_le_of_visits (smooth : Smooth f r phi slope) (descent : r.slope < 0)
    (halpha : 0 < alpha) (hc1 : 0 < c.c1) (hc : c.c1 < c.c2) (hc2 : c.c2 < 1)
    (bounded : ∀ a, 0 ≤ a → low ≤ phi a) :
    ∃ most, ∀ steps b, Visits (c.trial f r) (Bracket.next r) (.start alpha) steps b →
      steps.length ≤ most := by
  obtain ⟨width, hpos, hwidth⟩ :=
    exists_least_width smooth descent hc1 hc (alpha + 2 * reach c r low)
  generalize htop : alpha + 2 * reach c r low = top at hwidth
  refine ⟨⌊max top (top * top * 2 / width) / alpha⌋₊, fun steps b visits => ?_⟩
  have sound := sound_of_visits smooth descent halpha hc2 visits
  have narrows := narrows_of_visits smooth descent halpha hc1 hc2 bounded visits
  have hreach := sound.lo_le_reach descent hc1 bounded
  rw [htop] at narrows
  have hgrown : alpha * 2 ^ steps.length ≤ max top (top * top * 2 / width) := by
    cases hhi : b.hi with
    | none =>
        obtain ⟨hdoubled, hle⟩ := narrows.doubled hhi
        exact le_max_of_le_left (by linarith)
    | some hi =>
        obtain ⟨-, hle, hnarrow⟩ := narrows.halved hi hhi
        have hwide := hwidth b hi sound hhi hle
        refine le_max_of_le_right ((le_div_iff₀ hpos).mpr ?_)
        calc
          alpha * 2 ^ steps.length * width ≤ alpha * 2 ^ steps.length * (hi - b.lo) := by gcongr
          _ = (hi - b.lo) * (alpha * 2 ^ steps.length) := mul_comm _ _
          _ ≤ top * top * 2 := hnarrow
  apply Nat.le_floor
  rw [le_div_iff₀ halpha]
  have hpower : (steps.length : ℝ) ≤ 2 ^ steps.length := by
    exact_mod_cast le_of_lt Nat.lt_two_pow_self
  calc
    steps.length * alpha ≤ 2 ^ steps.length * alpha := by gcongr
    _ = alpha * 2 ^ steps.length := mul_comm _ _
    _ ≤ max top (top * top * 2 / width) := hgrown

end Halving

/-- Along a smooth objective that is bounded below, a strong Wolfe search with enough trials is
satisfied. -/
theorem satisfied_of_large_budget (smooth : Smooth f r phi slope) (descent : r.slope < 0)
    (bounded : ∀ a, 0 ≤ a → low ≤ phi a) (halpha : 0 < alpha) (hc1 : 0 < c.c1) (hc : c.c1 < c.c2)
    (hc2 : c.c2 < 1) :
    ∃ least, ∀ budget, least ≤ budget →
      ∃ s, search { c with maxIters := budget } f r alpha = .ok s ∧ s.satisfied = true := by
  obtain ⟨most, hmost⟩ := exists_length_le_of_visits smooth descent halpha hc1 hc hc2 bounded
  refine ⟨most + 1, fun budget hbudget => ?_⟩
  have hends : Ends (c.trial f r) (Bracket.next r) (.start alpha) budget
      ((strongWolfe { c with maxIters := budget }).attempts f r alpha) :=
    ends_search { c with maxIters := budget } f r alpha
  have hsearch := search_eq_map_attempts (f := f) (r := r)
    (strongWolfe { c with maxIters := budget }) alpha
  generalize (strongWolfe { c with maxIters := budget }).attempts f r alpha = result
    at hends hsearch
  cases hends with
  | @failed steps b e visits hallowed htrial =>
      have hnonneg := le_of_lt (sound_of_visits smooth descent halpha hc2 visits).alpha_pos
      obtain ⟨g, hg, -⟩ := smooth.gradient b.alpha hnonneg
      rcases eq_error_of_trial htrial with hvalue | hgradient
      · rw [smooth.value b.alpha hnonneg] at hvalue
        cases hvalue
      · rw [hg] at hgradient
        cases hgradient
  | @satisfied steps b s visits hallowed htrial hsatisfied =>
      refine ⟨s, ?_, hsatisfied⟩
      rw [Except.map, select_of_satisfied _ hsatisfied] at hsearch
      exact hsearch
  | exhausted visits hlength =>
      have hlimited := hmost _ _ visits
      omega

section Example

theorem satisfied_of_large_budget_square :
    Smooth realSquare steepestRay (fun a => (1 - 2 * a) * (1 - 2 * a))
        (fun a => -4 * (1 - 2 * a)) ∧ steepestRay.slope < 0 ∧
      ∃ least, ∀ budget, least ≤ budget →
        ∃ s, search { maxIters := budget } realSquare steepestRay 1 = .ok s ∧
          s.satisfied = true := by
  have descent : steepestRay.slope < 0 := by
    rw [slope_steepestRay]
    norm_num
  refine ⟨smooth_realSquare, descent, ?_⟩
  exact satisfied_of_large_budget (c := {}) smooth_realSquare descent
    (fun a _ => mul_self_nonneg (1 - 2 * a)) one_pos (by norm_num) (by norm_num) (by norm_num)

end Example

end LocalOptimization.LineSearch.StrongWolfe
