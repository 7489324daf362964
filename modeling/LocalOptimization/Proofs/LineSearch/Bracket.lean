import LocalOptimization.Proofs.LineSearch.Ray
import LocalOptimization.Proofs.LineSearch.StrongWolfe

/-!
# The bracket of a strong Wolfe search

Along a smooth objective the excess over the decrease bound falls at the lower end of the bracket.
At the upper end it is positive or rises. In between it therefore has a minimum, and a step to that
minimum passes both tests.
-/

namespace LocalOptimization.LineSearch.StrongWolfe

open Set

section Minimum

variable {psi psi' : ℝ → ℝ} {lo hi : ℝ}

/-- A function that falls at the start of an interval, and rises at its end or ends above its start,
has a minimum in between. -/
theorem exists_minimum (hlt : lo < hi)
    (derivative : ∀ a ∈ Icc lo hi, HasDerivWithinAt psi (psi' a) (Icc lo hi) a)
    (hfalls : psi' lo < 0) (hrises : psi lo < psi hi ∨ 0 < psi' hi) :
    ∃ a ∈ Ioo lo hi, psi a ≤ psi lo ∧ psi' a = 0 := by
  have hle := le_of_lt hlt
  have hcontinuous : ContinuousOn psi (Icc lo hi) :=
    fun a ha => (derivative a ha).continuousWithinAt
  obtain ⟨a, ha, hleast⟩ := isCompact_Icc.exists_isMinOn (nonempty_Icc.mpr hle) hcontinuous
  have hlocal : IsLocalMinOn psi (Icc lo hi) a := hleast.localize
  have hlo : a ≠ lo := by
    rintro rfl
    have htangent : hi - a ∈ posTangentConeAt (Icc a hi) a :=
      sub_mem_posTangentConeAt_of_segment_subset (segment_eq_Icc hle).subset
    have hslope := hlocal.hasFDerivWithinAt_nonneg (derivative a ha).hasFDerivWithinAt htangent
    simp only [ContinuousLinearMap.toSpanSingleton_apply, smul_eq_mul] at hslope
    nlinarith
  have hhi : a ≠ hi := by
    rintro rfl
    rcases hrises with habove | hup
    · exact absurd (hleast (left_mem_Icc.mpr hle)) (not_le.mpr habove)
    · have htangent : lo - a ∈ posTangentConeAt (Icc lo a) a :=
        sub_mem_posTangentConeAt_of_segment_subset (segment_symm ℝ a lo ▸ segment_eq_Icc hle).subset
      have hslope := hlocal.hasFDerivWithinAt_nonneg (derivative a ha).hasFDerivWithinAt htangent
      simp only [ContinuousLinearMap.toSpanSingleton_apply, smul_eq_mul] at hslope
      nlinarith
  have hinside : a ∈ Ioo lo hi := ⟨lt_of_le_of_ne ha.1 hlo.symm, lt_of_le_of_ne ha.2 hhi⟩
  have hneighbours : Icc lo hi ∈ nhds a := Icc_mem_nhds hinside.1 hinside.2
  refine ⟨a, hinside, hleast (left_mem_Icc.mpr hle), ?_⟩
  exact (hlocal.isLocalMin hneighbours).hasDerivAt_eq_zero
    ((derivative a ha).hasDerivAt hneighbours)

end Minimum

variable {n : Nat} {ε : Type} {c : StrongWolfe ℝ} {f : Objective ℝ n ε} {r : Ray ℝ n}
  {phi slope : ℝ → ℝ} {alpha a hi : ℝ} {b : Bracket ℝ} {s : Step ℝ n} {steps : List (Step ℝ n)}
  {k : Nat}

/-- The highest value that passes the decrease test at step length `a`. -/
noncomputable def allowed (c : StrongWolfe ℝ) (r : Ray ℝ n) (a : ℝ) : ℝ :=
  r.value + c.c1 * a * r.slope + slack r

section Tests

theorem suffices_iff_le_allowed (smooth : Smooth f r phi slope) (ha : 0 ≤ a) :
    c.Suffices f r a (phi a) ↔ phi a ≤ c.allowed r a := by
  rw [Suffices, and_iff_right (smooth.isFiniteAt ha _), not_lt, allowed]

theorem flat_iff_abs_le {g : Vector ℝ n} (descent : r.slope < 0) :
    c.Flat r g ↔ |dot g r.direction| ≤ -(c.c2 * r.slope) := by
  have habs : Scalar.abs r.slope = -r.slope := abs_of_neg descent
  rw [Flat, habs, mul_neg]
  exact Iff.rfl

theorem acceptable_of_le (smooth : Smooth f r phi slope) (descent : r.slope < 0) (ha : 0 ≤ a)
    (hdecreases : phi a ≤ c.allowed r a) (hflat : |slope a| ≤ -(c.c2 * r.slope)) :
    c.Acceptable f r a := by
  obtain ⟨g, hg, hslope⟩ := smooth.gradient a ha
  rw [acceptable_iff (smooth.value a ha) hg, suffices_iff_le_allowed smooth ha,
    flat_iff_abs_le descent, hslope]
  exact ⟨hdecreases, hflat⟩

/-- A trial that leaves the search unsatisfied becomes the upper end of the bracket if it is too
long, and the lower end if it is too short. -/
theorem next_cases (smooth : Smooth f r phi slope) (descent : r.slope < 0) (hnonneg : 0 ≤ b.alpha)
    (htrial : c.trial f r k b = .ok s) (hunsatisfied : s.satisfied = false) :
    (b.next r s = b.cutAbove ∧
        (c.allowed r b.alpha < phi b.alpha ∨ -(c.c2 * r.slope) < slope b.alpha)) ∨
      (b.next r s = b.cutBelow ∧ phi b.alpha ≤ c.allowed r b.alpha ∧
        slope b.alpha < c.c2 * r.slope) := by
  obtain ⟨-, hvalue, hcases⟩ := trial_cases htrial
  obtain ⟨g, hg, hslope⟩ := smooth.gradient b.alpha hnonneg
  have hphi : s.value = phi b.alpha :=
    Except.ok.inj (hvalue.symm.trans (smooth.value b.alpha hnonneg))
  rw [hphi, suffices_iff_le_allowed smooth hnonneg] at hcases
  rcases hcases with ⟨htooHigh, hgradient, -⟩ | ⟨hsuffices, g', hg', hgradient, hiff⟩
  · refine .inl ⟨?_, .inl (not_le.mp htooHigh)⟩
    rw [Bracket.next, hgradient]
  · obtain rfl := Except.ok.inj (hg.symm.trans hg')
    rw [hunsatisfied, flat_iff_abs_le descent, hslope] at hiff
    have hsteep : -(c.c2 * r.slope) < |slope b.alpha| := not_le.mp (mt hiff.mpr Bool.false_ne_true)
    rw [Bracket.next, hgradient]
    dsimp only
    rw [hslope, Exact.zero_eq]
    split
    next hdown =>
      rw [abs_of_neg hdown] at hsteep
      exact .inr ⟨rfl, hsuffices, by linarith⟩
    next hup =>
      rw [abs_of_nonneg (not_lt.mp hup)] at hsteep
      exact .inl ⟨rfl, .inr hsteep⟩

end Tests

section Order

theorem half_mul (x : ℝ) : 0.5 * x = x / 2 := by
  norm_num
  ring

theorem lo_start (alpha : ℝ) : (Bracket.start alpha).lo = 0 :=
  Exact.zero_eq

namespace Bracket

/-- No step of the bracket goes back, and the next trial lies strictly inside. -/
structure Ordered (b : Bracket ℝ) : Prop where
  nonneg : 0 ≤ b.lo
  lo_lt : b.lo < b.alpha
  lt_hi : ∀ hi, b.hi = some hi → b.alpha < hi

theorem ordered_start (halpha : 0 < alpha) : (start alpha).Ordered where
  nonneg := le_of_eq (lo_start alpha).symm
  lo_lt := by rwa [lo_start]
  lt_hi := nofun

namespace Ordered

theorem alpha_pos (ordered : b.Ordered) : 0 < b.alpha :=
  ordered.nonneg.trans_lt ordered.lo_lt

theorem cutAbove (ordered : b.Ordered) : b.cutAbove.Ordered := by
  have hlt := ordered.lo_lt
  refine ⟨ordered.nonneg, ?_, ?_⟩
  · rw [Bracket.cutAbove, half_mul]
    linarith
  · rintro hi ⟨⟩
    rw [Bracket.cutAbove, half_mul]
    linarith

theorem cutBelow (ordered : b.Ordered) : b.cutBelow.Ordered := by
  have hpos := ordered.alpha_pos
  refine ⟨le_of_lt hpos, ?_, ?_⟩
  · cases hhi : b.hi with
    | none =>
        simp only [Bracket.cutBelow, hhi, Exact.two_eq]
        linarith
    | some hi =>
        have hlt := ordered.lt_hi hi hhi
        simp only [Bracket.cutBelow, hhi, Exact.isFinite, if_true, half_mul]
        linarith
  · intro hi hhi
    have hlt := ordered.lt_hi hi hhi
    have hsome : b.hi = some hi := hhi
    simp only [Bracket.cutBelow, hsome, Exact.isFinite, if_true, half_mul]
    linarith

theorem next (ordered : b.Ordered) (r : Ray ℝ n) (s : Step ℝ n) : (b.next r s).Ordered := by
  rw [Bracket.next]
  split
  · split
    · exact ordered.cutBelow
    · exact ordered.cutAbove
  · exact ordered.cutAbove

end Ordered

end Bracket

end Order

section Invariant

/-- The lower end of the bracket is too short, the upper end, if there is one, is too long, and the
next trial lies between them. -/
structure Bracket.Sound (c : StrongWolfe ℝ) (r : Ray ℝ n) (phi slope : ℝ → ℝ) (b : Bracket ℝ) :
    Prop where
  nonneg : 0 ≤ b.lo
  lo_lt : b.lo < b.alpha
  lt_hi : ∀ hi, b.hi = some hi → b.alpha < hi
  decreases : phi b.lo ≤ c.allowed r b.lo
  steep : slope b.lo < c.c2 * r.slope
  tooLong : ∀ hi, b.hi = some hi → c.allowed r hi < phi hi ∨ -(c.c2 * r.slope) < slope hi

theorem slack_eq (r : Ray ℝ n) : slack r = 2 * Scalar.epsilon * |r.value| := by
  rw [slack, Exact.two_eq]
  rfl

theorem slack_nonneg (r : Ray ℝ n) : 0 ≤ slack r := by
  rw [slack_eq, Scalar.epsilon]
  positivity

theorem sound_start (smooth : Smooth f r phi slope) (descent : r.slope < 0) (halpha : 0 < alpha)
    (hc2 : c.c2 < 1) : (Bracket.start alpha).Sound c r phi slope where
  nonneg := (Bracket.ordered_start halpha).nonneg
  lo_lt := (Bracket.ordered_start halpha).lo_lt
  lt_hi := (Bracket.ordered_start halpha).lt_hi
  decreases := by
    have hslack := slack_nonneg r
    rw [allowed, lo_start, smooth.phi_zero]
    linarith
  steep := by
    rw [lo_start, smooth.slope_zero]
    nlinarith
  tooLong := nofun

namespace Bracket.Sound

theorem ordered (sound : b.Sound c r phi slope) : b.Ordered :=
  ⟨sound.nonneg, sound.lo_lt, sound.lt_hi⟩

theorem alpha_pos (sound : b.Sound c r phi slope) : 0 < b.alpha :=
  sound.ordered.alpha_pos

theorem cutAbove (sound : b.Sound c r phi slope)
    (htooLong : c.allowed r b.alpha < phi b.alpha ∨ -(c.c2 * r.slope) < slope b.alpha) :
    b.cutAbove.Sound c r phi slope := by
  have ordered := sound.ordered.cutAbove
  refine ⟨ordered.nonneg, ordered.lo_lt, ordered.lt_hi, sound.decreases, sound.steep, ?_⟩
  rintro hi ⟨⟩
  exact htooLong

theorem cutBelow (sound : b.Sound c r phi slope) (hdecreases : phi b.alpha ≤ c.allowed r b.alpha)
    (hsteep : slope b.alpha < c.c2 * r.slope) : b.cutBelow.Sound c r phi slope := by
  have ordered := sound.ordered.cutBelow
  exact ⟨ordered.nonneg, ordered.lo_lt, ordered.lt_hi, hdecreases, hsteep, sound.tooLong⟩

end Bracket.Sound

theorem sound_of_visits (smooth : Smooth f r phi slope) (descent : r.slope < 0) (halpha : 0 < alpha)
    (hc2 : c.c2 < 1)
    (visits : Visits (c.trial f r) (Bracket.next r) (.start alpha) steps b) :
    b.Sound c r phi slope := by
  induction visits with
  | start => exact sound_start smooth descent halpha hc2
  | next _ htrial hunsatisfied sound =>
      rcases next_cases smooth descent (le_of_lt sound.alpha_pos) htrial hunsatisfied with
        ⟨hnext, htooLong⟩ | ⟨hnext, hdecreases, hsteep⟩
      · rw [hnext]
        exact sound.cutAbove htooLong
      · rw [hnext]
        exact sound.cutBelow hdecreases hsteep

theorem hasDerivAt_allowed (c : StrongWolfe ℝ) (r : Ray ℝ n) (a : ℝ) :
    HasDerivAt (c.allowed r) (c.c1 * r.slope) a := by
  have hline := (((hasDerivAt_id a).const_mul c.c1).mul_const r.slope).const_add r.value
  exact (hline.add_const (slack r)).congr_deriv (by rw [mul_one])

theorem Bracket.Sound.exists_level (sound : b.Sound c r phi slope) (smooth : Smooth f r phi slope)
    (descent : r.slope < 0) (hc1 : 0 < c.c1) (hc : c.c1 < c.c2) (hhi : b.hi = some hi) :
    ∃ a, b.lo < a ∧ a < hi ∧ phi a ≤ c.allowed r a ∧ slope a = c.c1 * r.slope := by
  have hlt : b.lo < hi := sound.lo_lt.trans (sound.lt_hi hi hhi)
  have hflat : c.c2 * r.slope < c.c1 * r.slope := mul_lt_mul_of_neg_right hc descent
  have hdown : c.c1 * r.slope < 0 := mul_neg_of_pos_of_neg hc1 descent
  have derivative : ∀ a ∈ Icc b.lo hi, HasDerivWithinAt (fun a => phi a - c.allowed r a)
      (slope a - c.c1 * r.slope) (Icc b.lo hi) a := by
    intro a ha
    have hphi := smooth.derivative a (sound.nonneg.trans ha.1)
    have hsubset : Icc b.lo hi ⊆ Ici 0 := fun t ht => sound.nonneg.trans ht.1
    exact (hphi.mono hsubset).sub (hasDerivAt_allowed c r a).hasDerivWithinAt
  have hfalls : slope b.lo - c.c1 * r.slope < 0 := by
    have hsteep := sound.steep
    linarith
  have hrises : phi b.lo - c.allowed r b.lo < phi hi - c.allowed r hi ∨
      0 < slope hi - c.c1 * r.slope := by
    have hdecreases := sound.decreases
    rcases sound.tooLong hi hhi with htooHigh | hup
    · left
      linarith
    · right
      linarith
  obtain ⟨a, ⟨hlo, hle⟩, hbelow, hlevel⟩ := exists_minimum hlt derivative hfalls hrises
  have hdecreases := sound.decreases
  exact ⟨a, hlo, hle, by linarith, by linarith⟩

end Invariant

/-- At every trial the bracket from which the search goes on lies around the step tried. Its lower
end passes the decrease test, but is still steep, and once it has an upper end there is a step in
between that passes both tests. -/
theorem bracket_holds_acceptable (smooth : Smooth f r phi slope) (descent : r.slope < 0)
    (halpha : 0 < alpha) (hc1 : 0 < c.c1) (hc : c.c1 < c.c2) (hc2 : c.c2 < 1)
    (visits : Visits (c.trial f r) (Bracket.next r) (.start alpha) steps b) :
    (steps.length ≤ c.maxIters →
      c.search f r alpha = c.trials f r (c.maxIters - steps.length) steps.length b
        (steps.foldl Memory.add (Memory.start alpha))) ∧
      (0 ≤ b.lo ∧ b.lo < b.alpha ∧ ∀ hi, b.hi = some hi → b.alpha < hi) ∧
      (∃ v g, f.value (r.point b.lo) = .ok v ∧ c.Suffices f r b.lo v ∧
        f.gradient (r.point b.lo) = .ok g ∧ dot g r.direction < -(c.c2 * |r.slope|)) ∧
      ∀ hi, b.hi = some hi → ∃ a, b.lo < a ∧ a < hi ∧ c.Acceptable f r a := by
  have sound := sound_of_visits smooth descent halpha hc2 visits
  refine ⟨search_eq_trials_of_visits visits, ⟨sound.nonneg, sound.lo_lt, sound.lt_hi⟩, ?_, ?_⟩
  · obtain ⟨g, hg, hslope⟩ := smooth.gradient b.lo sound.nonneg
    refine ⟨phi b.lo, g, smooth.value b.lo sound.nonneg,
      (suffices_iff_le_allowed smooth sound.nonneg).mpr sound.decreases, hg, ?_⟩
    have hsteep := sound.steep
    rw [hslope, abs_of_neg descent]
    linarith
  · intro hi hhi
    obtain ⟨a, hlo, hle, hdecreases, hlevel⟩ := sound.exists_level smooth descent hc1 hc hhi
    refine ⟨a, hlo, hle, acceptable_of_le smooth descent (sound.nonneg.trans (le_of_lt hlo))
      hdecreases ?_⟩
    have hdown : c.c1 * r.slope < 0 := mul_neg_of_pos_of_neg hc1 descent
    have hflat : c.c2 * r.slope < c.c1 * r.slope := mul_lt_mul_of_neg_right hc descent
    rw [hlevel, abs_of_neg hdown]
    linarith

section Example

theorem visits_realSquare :
    ∃ steps, Visits (trial {} realSquare steepestRay) (Bracket.next steepestRay) (.start 1)
      steps { lo := 0.0, hi := some 1, alpha := 0.5 } := by
  obtain ⟨s, htrial⟩ := exists_trial (r := steepestRay) total_realSquare {} 0 (.start 1)
  obtain ⟨-, hvalue, hcases⟩ := trial_cases htrial
  have hphi := Except.ok.inj (hvalue.symm.trans (smooth_realSquare.value 1 zero_le_one))
  have htooHigh : ¬ Suffices {} realSquare steepestRay 1 s.value := by
    rw [hphi, suffices_iff_le_allowed smooth_realSquare zero_le_one, allowed, slope_steepestRay,
      slack, Scalar.epsilon]
    norm_num [steepestRay, Scalar.abs]
  obtain ⟨-, hgradient, hunsatisfied⟩ := hcases.resolve_right fun h => htooHigh h.1
  have visits : Visits (trial {} realSquare steepestRay) (Bracket.next steepestRay) (.start 1)
    _ _ := Visits.start.next htrial hunsatisfied
  have hnext : (Bracket.start 1).next steepestRay s =
      { lo := 0.0, hi := some 1, alpha := 0.5 } := by
    rw [Bracket.next, hgradient]
    norm_num [Bracket.cutAbove, Bracket.start]
  exact ⟨_, hnext ▸ visits⟩

theorem bracket_holds_acceptable_square :
    ∃ steps, Visits (trial {} realSquare steepestRay) (Bracket.next steepestRay) (.start 1)
        steps { lo := 0.0, hi := some 1, alpha := 0.5 } ∧
      ∃ a, 0.0 < a ∧ a < 1 ∧ Acceptable {} realSquare steepestRay a := by
  obtain ⟨steps, visits⟩ := visits_realSquare
  have descent : steepestRay.slope < 0 := by
    rw [slope_steepestRay]
    norm_num
  obtain ⟨-, -, -, holds⟩ := bracket_holds_acceptable smooth_realSquare descent one_pos
    (by norm_num) (by norm_num) (by norm_num) visits
  exact ⟨steps, visits, holds 1 rfl⟩

end Example

end LocalOptimization.LineSearch.StrongWolfe
