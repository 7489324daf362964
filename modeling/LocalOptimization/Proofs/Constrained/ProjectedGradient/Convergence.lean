import Mathlib
import LocalOptimization.Proofs.Box
import LocalOptimization.Proofs.Constrained.ProjectedGradient
import LocalOptimization.Proofs.LineSearch
import LocalOptimization.Proofs.Procedure.Outcome
import LocalOptimization.Proofs.Procedure.Progress
import LocalOptimization.Proofs.QuasiNewton

/-!
# Convergence of the projected gradient method

The projection inequality tells what a move along the projection arc does for the slope of the
objective: at least its squared length over the step length, and at least a share of the squared
residual. On a smooth objective the shortest trial of a search therefore decreases the objective
enough, and as long as the residual is not small, every iteration lowers the objective by a fixed
amount.
-/

namespace LocalOptimization.Constrained.ProjectedGradient

variable {n : Nat} {ε σ : Type} {f : Objective ℝ n ε} {b : Box ℝ n} {c : Config ℝ}
variable {x : Vector ℝ n} {e : Evaluation ℝ n} {alpha beta low l : ℝ}

section Arc

/-- The point of the projection arc at a step length. -/
noncomputable def arc (b : Box ℝ n) (e : Evaluation ℝ n) (alpha : ℝ) : Vector ℝ n :=
  b.project (e.x - alpha * e.gradient)

/-- The move to the point of the arc. -/
noncomputable def move (b : Box ℝ n) (e : Evaluation ℝ n) (alpha : ℝ) : Vector ℝ n :=
  arc b e alpha - e.x

theorem contains_arc (b : Box ℝ n) (e : Evaluation ℝ n) (alpha : ℝ) :
    b.contains (arc b e alpha) = true :=
  b.contains_project _

theorem residual_mul_residual (b : Box ℝ n) (e : Evaluation ℝ n) :
    residual b e * residual b e = dot (move b e 1) (move b e 1) := by
  have hunit : (1 : ℝ) * e.gradient = e.gradient := by
    ext i hi
    rw [Vector.getElem_hmul, one_mul]
  have hback : e.x - b.project (e.x - e.gradient) = -move b e 1 := by
    ext i hi
    rw [move, arc, hunit, Vector.getElem_neg, Vector.getElem_sub, Vector.getElem_sub, neg_sub]
  rw [residual, Exact.norm_mul_norm, hback, Exact.dot_neg, Exact.neg_dot, neg_neg]

theorem dot_move_sub_le (e : Evaluation ℝ n) (alpha : ℝ) {z : Vector ℝ n}
    (hz : b.contains z = true) :
    dot (move b e alpha) (move b e alpha) - dot (move b e alpha) (z - e.x) ≤
      alpha * (dot e.gradient (z - e.x) - dot e.gradient (move b e alpha)) := by
  have hobtuse := b.dot_sub_project_le (y := e.x - alpha * e.gradient) hz
  have hleft : e.x - alpha * e.gradient - b.project (e.x - alpha * e.gradient) =
      -(alpha * e.gradient + move b e alpha) := by
    ext i hi
    simp only [move, arc, Vector.getElem_sub, Vector.getElem_neg, Vector.getElem_add]
    ring
  have hright : z - b.project (e.x - alpha * e.gradient) = (z - e.x) - move b e alpha := by
    ext i hi
    simp only [move, arc, Vector.getElem_sub]
    ring
  rw [hleft, hright, Exact.neg_dot, Exact.add_dot, Exact.hmul_dot, Exact.dot_sub _ (z - e.x),
    Exact.dot_sub _ (z - e.x)] at hobtuse
  linarith

theorem mul_dot_move_le (hx : b.contains e.x = true) (alpha : ℝ) :
    alpha * dot e.gradient (move b e alpha) ≤ -dot (move b e alpha) (move b e alpha) := by
  have hstay := dot_move_sub_le e alpha hx
  rw [Exact.dot_sub, Exact.dot_sub, sub_self, sub_self] at hstay
  linarith

theorem dot_move_sub_move_le (b : Box ℝ n) (e : Evaluation ℝ n) (alpha beta : ℝ) :
    dot (move b e alpha) (move b e alpha) - dot (move b e alpha) (move b e beta) ≤
      alpha * (dot e.gradient (move b e beta) - dot e.gradient (move b e alpha)) :=
  dot_move_sub_le e alpha (contains_arc b e beta)

theorem dot_move_le_of_le (h : alpha ≤ beta) :
    dot e.gradient (move b e beta) ≤ dot e.gradient (move b e alpha) := by
  have hthere := dot_move_sub_move_le b e alpha beta
  have hback := dot_move_sub_move_le b e beta alpha
  have hgap := Exact.dot_self_nonneg (move b e beta - move b e alpha)
  rw [Exact.dot_sub, Exact.sub_dot, Exact.sub_dot] at hgap
  rw [Exact.dot_comm (move b e beta) (move b e alpha)] at hback hgap
  rcases h.eq_or_lt with rfl | hlt
  · exact le_refl _
  · nlinarith

theorem sq_mul_dot_move_one_le (hpos : 0 < alpha) (hle : alpha ≤ 1) :
    alpha * alpha * dot (move b e 1) (move b e 1) ≤ dot (move b e alpha) (move b e alpha) := by
  rcases hle.eq_or_lt with rfl | hlt
  · rw [one_mul, one_mul]
  · have hthere := dot_move_sub_move_le b e alpha 1
    have hback := dot_move_sub_move_le b e 1 alpha
    have hgap := Exact.dot_self_nonneg (move b e alpha - alpha * move b e 1)
    rw [Exact.dot_sub, Exact.sub_dot, Exact.sub_dot, Exact.dot_hmul, Exact.hmul_dot, Exact.hmul_dot,
      Exact.dot_hmul] at hgap
    rw [Exact.dot_comm (move b e 1) (move b e alpha)] at hback hgap
    have halong : 0 ≤ dot (move b e alpha) (move b e 1) -
        alpha * dot (move b e 1) (move b e 1) := by
      nlinarith
    nlinarith

theorem min_mul_residual_le (hx : b.contains e.x = true) (hpos : 0 < alpha) :
    min alpha 1 * (residual b e * residual b e) ≤ -dot e.gradient (move b e alpha) := by
  rw [residual_mul_residual]
  rcases le_total alpha 1 with hle | hge
  · rw [min_eq_left hle]
    have hshort := sq_mul_dot_move_one_le (b := b) (e := e) hpos hle
    have hdescent := mul_dot_move_le hx alpha
    nlinarith
  · rw [min_eq_right hge]
    have hdescent := mul_dot_move_le hx 1
    have hlong := dot_move_le_of_le (b := b) (e := e) hge
    linarith

end Arc

/-- The objective never fails. On the box it is defined and bounded below, and it exceeds its
linearization at any point by at most `l / 2` times the squared distance. -/
structure Smooth (f : Objective ℝ n ε) (b : Box ℝ n) (low l : ℝ) : Prop where
  total : f.Total
  domain : ∀ y, b.contains y = true → f.domain y = true
  low_le : ∀ y v, b.contains y = true → f.value y = .ok v → low ≤ v
  value_le : ∀ y z v w g, b.contains y = true → b.contains z = true → f.value y = .ok v →
    f.gradient y = .ok g → f.value z = .ok w →
    w ≤ v + dot g (z - y) + l / 2 * norm (z - y) ^ 2

/-- The shortest step length that a search tries. -/
noncomputable def Config.leastStep (c : Config ℝ) : ℝ :=
  c.initialStep * c.shrink ^ (c.maxBacktracks - 1)

section Search

variable {next : Evaluation ℝ n} {value : ℝ} {budget : Nat}

theorem accepts_iff : accepts c f e x value = true ↔
    f.isFiniteAt x value = true ∧ dot e.gradient (x - e.x) < 0 ∧
      value ≤ e.value + c.c1 * dot e.gradient (x - e.x) := by
  simp only [accepts, Bool.and_eq_true, decide_eq_true_iff, Exact.zero_eq, and_assoc]

theorem accepts_arc_iff : accepts c f e (arc b e alpha) value = true ↔
    f.isFiniteAt (arc b e alpha) value = true ∧ dot e.gradient (move b e alpha) < 0 ∧
      value ≤ e.value + c.c1 * dot e.gradient (move b e alpha) :=
  accepts_iff

theorem Config.Valid.leastStep_pos (valid : c.Valid) : 0 < c.leastStep := by
  have hinitial := (Exact.isPositive_iff _).mp valid.initialStep
  have hshrink := ((Exact.inOpenUnit_iff _).mp valid.shrink).1
  exact mul_pos hinitial (pow_pos hshrink _)

theorem exists_length_of_arcSearch
    (h : arcSearch c f b e budget alpha = .ok (some (beta, next))) :
    ∃ j < budget, beta = alpha * c.shrink ^ j := by
  obtain ⟨j, hj, rfl⟩ := exists_iterate_of_arcSearch h
  exact ⟨j, hj, by rw [mul_right_iterate]⟩

theorem leastStep_le_of_arcSearch (valid : c.Valid)
    (h : arcSearch c f b e c.maxBacktracks c.initialStep = .ok (some (alpha, next))) :
    c.leastStep ≤ alpha := by
  obtain ⟨j, hj, rfl⟩ := exists_length_of_arcSearch h
  obtain ⟨hpos, hlt⟩ := (Exact.inOpenUnit_iff _).mp valid.shrink
  have hinitial := (Exact.isPositive_iff _).mp valid.initialStep
  apply mul_le_mul_of_nonneg_left _ (le_of_lt hinitial)
  exact pow_le_pow_of_le_one (le_of_lt hpos) (le_of_lt hlt) (by omega)

theorem rejects_of_arcSearch (h : arcSearch c f b e budget alpha = .ok none) {j : Nat}
    (hj : j < budget) : ∃ v, f.value (arc b e (alpha * c.shrink ^ j)) = .ok v ∧
      accepts c f e (arc b e (alpha * c.shrink ^ j)) v = false := by
  induction budget generalizing alpha j with
  | zero => cases hj
  | succ budget ih =>
      obtain ⟨value, hvalue, h⟩ := Except.bind_eq_ok_iff.mp h
      split at h
      · obtain ⟨gradient, -, h⟩ := Except.bind_eq_ok_iff.mp h
        cases h
      next hrejected =>
        cases j with
        | zero =>
            rw [pow_zero, mul_one]
            exact ⟨value, hvalue, Bool.eq_false_iff.mpr hrejected⟩
        | succ j =>
            rw [pow_succ', ← mul_assoc]
            exact ih h (Nat.lt_of_succ_lt_succ hj)

theorem accepts_arc (smooth : Smooth f b low l) (hl : 0 < l) (hx : b.contains e.x = true)
    (evaluates : f.Evaluates e) (hresidual : 0 < residual b e) (hpos : 0 < alpha)
    (hshort : alpha * l ≤ 2 * (1 - c.c1)) (hvalue : f.value (arc b e alpha) = .ok value) :
    accepts c f e (arc b e alpha) value = true := by
  have hinside := contains_arc b e alpha
  have hdescent : 0 < -dot e.gradient (move b e alpha) :=
    lt_of_lt_of_le (mul_pos (lt_min hpos one_pos) (mul_pos hresidual hresidual))
      (min_mul_residual_le hx hpos)
  have hlength := mul_dot_move_le hx alpha
  have hupper : value ≤ e.value + dot e.gradient (move b e alpha) +
      l / 2 * dot (move b e alpha) (move b e alpha) := by
    rw [← Exact.norm_mul_norm, ← sq]
    exact smooth.value_le e.x (arc b e alpha) e.value value e.gradient hx hinside evaluates.value
      evaluates.gradient hvalue
  have hcurved : l / 2 * dot (move b e alpha) (move b e alpha) ≤
      (1 - c.c1) * -dot e.gradient (move b e alpha) := by
    calc
      l / 2 * dot (move b e alpha) (move b e alpha)
          ≤ l / 2 * (alpha * -dot e.gradient (move b e alpha)) :=
            mul_le_mul_of_nonneg_left (by linarith) (by linarith)
      _ = alpha * l / 2 * -dot e.gradient (move b e alpha) := by ring
      _ ≤ (1 - c.c1) * -dot e.gradient (move b e alpha) :=
            mul_le_mul_of_nonneg_right (by linarith) (le_of_lt hdescent)
  rw [accepts_arc_iff]
  refine ⟨Bool.and_eq_true_iff.mpr ⟨smooth.domain _ hinside, rfl⟩, neg_pos.mp hdescent, ?_⟩
  linarith

end Search

section Step

/-- What a run keeps of its state: an evaluation of the objective in the box, and its residual. -/
structure State.Tracks (f : Objective ℝ n ε) (b : Box ℝ n) (s : State ℝ n) : Prop where
  inside : b.contains s.current.x = true
  evaluates : f.Evaluates s.current
  measure : s.last.measure.value = residual b s.current

/-- An iteration lowers the objective by at least this. -/
noncomputable def leastDecrease (c : Config ℝ) : ℝ :=
  c.c1 * (min c.leastStep 1 * (c.tolerance * c.tolerance))

theorem leastDecrease_pos (valid : c.Valid) : 0 < leastDecrease c := by
  have htolerance := (Exact.isPositive_iff _).mp valid.tolerancePositive
  have hc1 := ((Exact.inOpenUnit_iff _).mp valid.sufficientDecrease).1
  exact mul_pos hc1 (mul_pos (lt_min valid.leastStep_pos one_pos) (mul_pos htolerance htolerance))

variable {i : Nat} {s t : State ℝ n} {event : Record ℝ n}

theorem State.Tracks.tolerance_le (tracks : s.Tracks f b)
    (running : (iteration f b c).converged s = false) : c.tolerance ≤ residual b s.current := by
  have h := of_decide_eq_false running
  rw [tracks.measure] at h
  exact not_lt.mp h

theorem State.tracks_of_advance
    (advanced : (iteration f b c).advance i s = .ok (some (t, event))) : t.Tracks f b := by
  obtain ⟨alpha, next, found, rfl, -⟩ := exists_found_of_advance advanced
  have hinside : b.contains next.x = true := by
    rw [found.x]
    exact b.contains_project _
  exact ⟨hinside, ⟨found.value, found.gradient, (accepts_iff.mp found.accepted).1⟩, rfl⟩

theorem State.Tracks.leastDecrease_le (tracks : s.Tracks f b) (valid : c.Valid)
    (running : (iteration f b c).converged s = false) (hleast : c.leastStep ≤ alpha) :
    leastDecrease c ≤ c.c1 * -dot s.current.gradient (move b s.current alpha) := by
  have hpos : 0 < alpha := valid.leastStep_pos.trans_le hleast
  have htolerance := (Exact.isPositive_iff _).mp valid.tolerancePositive
  have hc1 := ((Exact.inOpenUnit_iff _).mp valid.sufficientDecrease).1
  have hresidual : c.tolerance * c.tolerance ≤ residual b s.current * residual b s.current :=
    mul_self_le_mul_self (le_of_lt htolerance) (tracks.tolerance_le running)
  apply mul_le_mul_of_nonneg_left _ (le_of_lt hc1)
  calc
    min c.leastStep 1 * (c.tolerance * c.tolerance)
        ≤ min alpha 1 * (residual b s.current * residual b s.current) :=
          mul_le_mul (min_le_min_right 1 hleast) hresidual (mul_self_nonneg _)
            (le_of_lt (lt_min hpos one_pos))
    _ ≤ -dot s.current.gradient (move b s.current alpha) :=
          min_mul_residual_le tracks.inside hpos

theorem State.Tracks.value_add_le (tracks : s.Tracks f b) (valid : c.Valid)
    (running : (iteration f b c).converged s = false)
    (advanced : (iteration f b c).advance i s = .ok (some (t, event))) :
    t.current.value + leastDecrease c ≤ s.current.value := by
  obtain ⟨alpha, next, hsearch, rfl, -⟩ := exists_arcSearch_of_advance advanced
  have found := found_of_arcSearch hsearch
  have haccepted := found.accepted
  rw [found.x] at haccepted
  have hdecrease : next.value ≤
      s.current.value + c.c1 * dot s.current.gradient (move b s.current alpha) :=
    (accepts_arc_iff.mp haccepted).2.2
  have hleast := tracks.leastDecrease_le valid running (leastStep_le_of_arcSearch valid hsearch)
  change next.value + leastDecrease c ≤ s.current.value
  linarith

/-- The shortest trial of a search succeeds where no earlier one does. -/
theorem State.Tracks.advance_ne_none (tracks : s.Tracks f b) (smooth : Smooth f b low l)
    (valid : c.Valid) (hl : 0 < l) (hshort : c.leastStep ≤ 2 * (1 - c.c1) / l)
    (running : (iteration f b c).converged s = false) :
    (iteration f b c).advance i s ≠ .ok none := by
  intro hgaveUp
  have hlast : c.maxBacktracks - 1 < c.maxBacktracks := Nat.sub_lt valid.trialAllowed one_pos
  obtain ⟨value, hvalue, hrejected⟩ := rejects_of_arcSearch (arcSearch_of_gaveUp hgaveUp) hlast
  have htolerance := (Exact.isPositive_iff _).mp valid.tolerancePositive
  have haccepted := accepts_arc (c := c) smooth hl tracks.inside tracks.evaluates
    (htolerance.trans_le (tracks.tolerance_le running)) valid.leastStep_pos
    ((le_div_iff₀ hl).mp hshort) hvalue
  exact Bool.false_ne_true (hrejected.symm.trans haccepted)

end Step

section Run

noncomputable def potential (low : ℝ) (c : Config ℝ) (s : State ℝ n) : ℝ :=
  (s.current.value - low) / leastDecrease c

theorem potential_add_one_le (valid : c.Valid) {s t : State ℝ n}
    (h : t.current.value + leastDecrease c ≤ s.current.value) :
    potential low c t + 1 ≤ potential low c s := by
  have hunit := leastDecrease_pos valid
  rw [potential, potential, div_add_one (ne_of_gt hunit)]
  exact div_le_div_of_nonneg_right (by linarith) (le_of_lt hunit)

theorem potential_nonneg (smooth : Smooth f b low l) (valid : c.Valid) {s : State ℝ n}
    (tracks : s.Tracks f b) : 0 ≤ potential low c s :=
  div_nonneg (sub_nonneg.mpr (smooth.low_le _ _ tracks.inside tracks.evaluates.value))
    (le_of_lt (leastDecrease_pos valid))

theorem length_le_of_chain (smooth : Smooth f b low l) (valid : c.Valid) {i : Nat}
    {s t : State ℝ n} {events : List (Record ℝ n)} (tracks : s.Tracks f b)
    (chain : (iteration f b c).Chain i s events t) :
    t.Tracks f b ∧ events.length ≤ potential low c s := by
  have step : ∀ i s t event, State.Tracks f b s → (iteration f b c).converged s = false →
      (iteration f b c).advance i s = .ok (some (t, event)) →
      t.Tracks f b ∧ potential low c t + 1 ≤ potential low c s := by
    intro i s t event hs running advanced
    exact ⟨State.tracks_of_advance advanced,
      potential_add_one_le valid (hs.value_add_le valid running advanced)⟩
  obtain ⟨ht, hlength⟩ := chain.potential_add_length_le step tracks
  have hnonneg := potential_nonneg smooth valid ht
  exact ⟨ht, by linarith⟩

theorem exists_start (smooth : Smooth f b low l) (x : Vector ℝ n) :
    ∃ s : State ℝ n, s.Tracks f b ∧ ∀ c : Config ℝ, c.Valid → start f b x c = .ok s := by
  obtain ⟨e, hevaluate⟩ := smooth.total.exists_evaluate (b.project x)
  obtain ⟨hx, hvalue, hgradient⟩ := Objective.evaluate_eq_ok_iff.mp hevaluate
  rw [← hx] at hvalue hgradient
  have hinside : b.contains e.x = true := hx ▸ b.contains_project x
  have hdomain := smooth.domain e.x hinside
  have hfinite : (f.domain e.x && e.isFinite) = true := by
    rw [hdomain, Evaluation.isFinite, Exact.isFinite, Exact.allFinite]
    rfl
  refine ⟨.reached b 0 0.0 e, ?_, ?_⟩
  · exact ⟨hinside, ⟨hvalue, hgradient, Bool.and_eq_true_iff.mpr ⟨hdomain, rfl⟩⟩, rfl⟩
  · intro c valid
    exact start_eq_ok_iff.mpr ⟨valid, Exact.allFinite x, e, hevaluate, hfinite, rfl⟩

theorem exists_ending (smooth : Smooth f b low l) (hl : 0 < l) (valid : c.Valid)
    (hshort : c.leastStep ≤ 2 * (1 - c.c1) / l) {s : State ℝ n} (hstart : start f b x c = .ok s)
    (tracks : s.Tracks f b) (o : Observer σ (Record ℝ n)) (w : σ) :
    ∃ ending, (minimize f b x c o w).1 = .ok (solution ending) ∧ ending.status ≠ .gaveUp ∧
      (ending.status = .exhausted → c.maxIters ≤ potential low c s) ∧
      ((∀ w event, (o.observe w event).1 = false) → ending.status ≠ .stopped) := by
  obtain ⟨ending, hending⟩ := Iteration.exists_ending_of_total (m := iteration f b c)
    (exists_advance smooth.total) o c.maxIters
    { state := s, iterations := 0, history := .empty c.historyLimit } w
  obtain ⟨events, outcome, -⟩ := Iteration.exists_outcome (Prod.ext hending rfl)
  obtain ⟨ht, hlength⟩ := length_le_of_chain smooth valid tracks outcome.chain
  refine ⟨ending, ?result, ?gaveUp, ?exhausted, ?stopped⟩
  case result =>
    rw [minimize, hstart]
    exact Except.map_eq_ok_iff.mpr ⟨ending, hending, rfl⟩
  case gaveUp =>
    intro hstatus
    have running : (iteration f b c).converged ending.state = false := by
      rw [← Bool.not_eq_true, ← Iteration.status_eq_converged_iff hending (.inl rfl), hstatus]
      nofun
    exact ht.advance_ne_none smooth valid hl hshort running (outcome.gaveUp hstatus)
  case exhausted =>
    intro hstatus
    rw [(outcome.exhausted hstatus).2] at hlength
    exact hlength
  case stopped =>
    exact fun passes => Iteration.status_ne_stopped passes hending

/-- On a smooth objective the projected gradient method does not give up, and it converges once its
budget is large enough, unless an observer stops it. -/
theorem converges_of_smooth (smooth : Smooth f b low l) (hl : 0 < l)
    (hvalid : c.validate = .ok ()) (hshort : c.leastStep ≤ 2 * (1 - c.c1) / l) (x : Vector ℝ n) :
    (∀ (σ : Type) (o : Observer σ (Record ℝ n)) (w : σ),
      ∃ sol, (minimize f b x c o w).1 = .ok sol ∧ sol.status ≠ .gaveUp) ∧
    ∃ least, ∀ budget, least ≤ budget → ∀ (σ : Type) (o : Observer σ (Record ℝ n)) (w : σ),
      (∀ w event, (o.observe w event).1 = false) →
      ∃ sol, (minimize f b x { c with maxIters := budget } o w).1 = .ok sol ∧
        sol.status = .converged := by
  have valid := Config.validate_eq_ok_iff.mp hvalid
  obtain ⟨s, tracks, hstart⟩ := exists_start smooth x
  constructor
  · intro σ o w
    obtain ⟨ending, hresult, hgaveUp, -⟩ :=
      exists_ending smooth hl valid hshort (hstart c valid) tracks o w
    exact ⟨_, hresult, hgaveUp⟩
  · refine ⟨⌊potential low c s⌋₊ + 1, ?_⟩
    intro budget hbudget σ o w passes
    have valid' : Config.Valid { c with maxIters := budget } :=
      { valid with allowed := (Nat.succ_pos _).trans_le hbudget }
    obtain ⟨ending, hresult, hgaveUp, hexhausted, hstopped⟩ :=
      exists_ending smooth hl valid' hshort (hstart _ valid') tracks o w
    refine ⟨_, hresult, ?_⟩
    cases hstatus : ending.status with
    | converged => exact hstatus
    | gaveUp => exact absurd hstatus hgaveUp
    | exhausted =>
        have hfloor : budget ≤ ⌊potential low c s⌋₊ := Nat.le_floor (hexhausted hstatus)
        omega
    | stopped => exact absurd hstatus (hstopped passes)

end Run

section Example

/-- The function `½·(x - 2)²`. -/
noncomputable def parabola : Objective ℝ 1 Empty where
  value x := .ok (0.5 * dot (x - #v[2.0]) (x - #v[2.0]))
  gradient x := .ok (x - #v[2.0])

/-- The interval from 0 to 1, on which that function decreases. -/
noncomputable def interval : Box ℝ 1 where
  lower := #v[some 0]
  upper := #v[some 1]
  faultless := by
    rw [Box.firstFault?, List.findSome?_eq_none_iff]
    intro i _
    rw [Subsingleton.elim i 0]
    have hordered : ¬ (1 : ℝ) < 0 := by norm_num
    simp [Box.faultAt, Exact.isNaN, Vector.get_eq_getElem, hordered]

theorem smooth_parabola : Smooth parabola interval 0 1 where
  total := ⟨fun _ => ⟨_, rfl⟩, fun _ => ⟨_, rfl⟩⟩
  domain _ _ := rfl
  low_le y v _ hvalue := by
    cases hvalue
    exact mul_nonneg (by norm_num) (Exact.dot_self_nonneg _)
  value_le y z v w g _ _ hv hg hw := by
    cases hv
    cases hg
    cases hw
    rw [sq, Exact.norm_mul_norm]
    simp only [Exact.dot_sub, Exact.sub_dot]
    apply le_of_eq
    rw [Exact.dot_comm z y, Exact.dot_comm z #v[2.0], Exact.dot_comm y #v[2.0]]
    ring

theorem validate_default : Config.validate (K := ℝ) {} = .ok () := by
  rw [Config.validate_eq_ok_iff]
  constructor <;> simp only [Exact.isPositive_iff, Exact.inOpenUnit_iff] <;> norm_num

theorem leastStep_default : Config.leastStep {} ≤ 2 * (1 - 1e-4) / 1 := by
  norm_num [Config.leastStep]

theorem converges_of_smooth_parabola :
    Smooth parabola interval 0 1 ∧ Config.validate (K := ℝ) {} = .ok () ∧
      Config.leastStep {} ≤ 2 * (1 - 1e-4) / 1 ∧
      (∀ (σ : Type) (o : Observer σ (Record ℝ 1)) (w : σ),
        ∃ sol, (minimize parabola interval #v[0] {} o w).1 = .ok sol ∧ sol.status ≠ .gaveUp) ∧
      ∃ least, ∀ budget, least ≤ budget →
        ∃ sol, minimizeUnobserved parabola interval #v[0] { maxIters := budget } = .ok sol ∧
          sol.status = .converged := by
  obtain ⟨hgoesOn, least, hconverges⟩ :=
    converges_of_smooth smooth_parabola one_pos validate_default leastStep_default #v[0]
  refine ⟨smooth_parabola, validate_default, leastStep_default, hgoesOn, least, ?_⟩
  intro budget hbudget
  exact hconverges budget hbudget Unit .silent () (fun _ _ => rfl)

end Example

end LocalOptimization.Constrained.ProjectedGradient
