import Mathlib
import LocalOptimization.Proofs.Procedure.Methods
import LocalOptimization.Proofs.Procedure.Projection
import LocalOptimization.Proofs.TrustRegion.Solver
import LocalOptimization.Proofs.Univariate

/-!
# Objectives with a Hessian of their own

Where the objective provides its Hessian, the source of Hessians is kept up to date and never asked.
Forgetting it, and the flags that tell of its skipped pairs, projects every run to the run with
finite differences, in which nothing is skipped.
-/

namespace LocalOptimization.TrustRegion

variable {K : Type} [Scalar K] {n : Nat} {ε σ : Type}
variable {f : Objective K n ε} {c : Config K} {x : Vector K n}

/-- The objective provides its Hessian everywhere. Its value and gradient may still fail. -/
def ProvidesHessian (f : Objective K n ε) : Prop :=
  ∀ y, ∃ m, f.hessian y = .ok (some m)

def Record.unflagged (r : Record K n) : Record K n :=
  { r with stale := false }

def Event.unflagged (e : Event K n) : Event K n :=
  { e with record := e.record.unflagged }

/-- The solution without the flags of its records. -/
def Solution.unflagged (sol : Solution K n) : Solution K n :=
  { sol with history := sol.history.map Record.unflagged }

/-- The state without what it has learned of the curvature. -/
def State.unlearned (s : State K n) : State K n :=
  { s with source := .finiteDifference }

namespace State

variable {s : State K n} {o : Outcome K n}

theorem accept_of_provided {m : Matrix K n}
    (provided : f.hessian (s.current.x + o.trial.p) = .ok (some m)) :
    s.accept f o = (f.gradient (s.current.x + o.trial.p)).map fun g =>
      let updated := s.source.update? o.trial.p (g - s.current.gradient)
      ({ s with
          current := { x := s.current.x + o.trial.p, value := o.value, gradient := g }
          hessian := m
          source := updated.getD s.source }, updated.isNone) := by
  simp only [accept, HessianSource.hessian_of_provided provided]
  cases f.gradient (s.current.x + o.trial.p) <;> rfl

theorem accept_unlearned (provides : ProvidesHessian f) :
    s.unlearned.accept f o = (s.accept f o).map fun r => (r.1.unlearned, false) := by
  obtain ⟨m, provided⟩ := provides (s.current.x + o.trial.p)
  rw [accept_of_provided (s := s) provided, accept_of_provided (s := s.unlearned) provided]
  change (f.gradient (s.current.x + o.trial.p)).map _ = _
  cases f.gradient (s.current.x + o.trial.p) <;> rfl

theorem tryStep_unlearned : s.unlearned.tryStep f c = s.tryStep f c :=
  rfl

theorem advance_unlearned (provides : ProvidesHessian f) (i : Nat) :
    s.unlearned.advance f c i =
      (s.advance f c i).map (Option.map (Prod.map unlearned Event.unflagged)) := by
  unfold advance
  rw [tryStep_unlearned]
  by_cases hsmall : s.radius < c.minRadius
  · rw [if_pos hsmall, if_pos (show s.unlearned.radius < c.minRadius from hsmall)]
    rfl
  · rw [if_neg hsmall, if_neg (show ¬ s.unlearned.radius < c.minRadius from hsmall)]
    cases s.tryStep f c with
    | error e => rfl
    | ok o =>
        simp only [bind, Except.bind]
        by_cases haccepted : c.eta < o.ratio
        · rw [if_pos haccepted, if_pos haccepted]
          let resized : State K n :=
            { s with radius := nextRadius c.maxRadius s.radius o.ratio o.trial.onBoundary }
          change (resized.unlearned.accept f o).bind _ = ((resized.accept f o).bind _).map _
          rw [accept_unlearned provides]
          cases resized.accept f o <;> rfl
        · rw [if_neg haccepted, if_neg haccepted]
          rfl

end State

theorem start_unlearned (provides : ProvidesHessian f) (h : HessianChoice) :
    start f { c with hessian := .finiteDifference } x =
      (start f { c with hessian := h } x).map State.unlearned := by
  obtain ⟨m, provided⟩ := provides x
  have hvalidate (h : HessianChoice) : { c with hessian := h }.validate = c.validate := rfl
  simp only [start, HessianSource.hessian_of_provided provided, hvalidate]
  cases c.validate with
  | error e => rfl
  | ok =>
      cases allFinite x with
      | false => rfl
      | true =>
          cases hevaluate : f.evaluate x with
          | error e => rfl
          | ok e =>
              change (if (!(f.domain x && e.isFinite && m.all allFinite)) = true then
                  .error .nonFiniteStart else .ok _) =
                (if (!(f.domain x && e.isFinite && m.all allFinite)) = true then
                  .error .nonFiniteStart else .ok _ : Except (Error ε) _).map State.unlearned
              split <;> rfl

theorem procedure_projects (provides : ProvidesHessian f) (h : HessianChoice) :
    (procedure f x { c with hessian := h }).Projects
      (procedure f x { c with hessian := .finiteDifference }) State.unlearned Event.unflagged
      (History.map Record.unflagged) Solution.unflagged where
  start := start_unlearned provides h
  startEvent := rfl
  iteration := {
    converged _ := rfl
    advance i s := by
      change (s.unlearned.advance f c i).mapError Error.objective =
        ((s.advance f c i).mapError Error.objective).map _
      rw [State.advance_unlearned provides]
      cases s.advance f c i <;> rfl
    empty := rfl
    push h e _ := h.map_push Record.unflagged e.record
    convergenceFirst := rfl }
  budget := rfl
  solution _ := rfl

theorem minimize_finiteDifference (provides : ProvidesHessian f) (h : HessianChoice)
    (o : Observer σ (Event K n)) (w : σ) :
    minimize f x { c with hessian := .finiteDifference } o w =
      let r := minimize f x { c with hessian := h } (o.contramap Event.unflagged) w
      (r.1.map Solution.unflagged, r.2) := by
  have hrun := (procedure_projects (x := x) (c := c) provides h).run_map o w
  rwa [procedure_run, procedure_run] at hrun

theorem minimizeUnobserved_finiteDifference (provides : ProvidesHessian f) (h : HessianChoice) :
    minimizeUnobserved f x { c with hessian := .finiteDifference } =
      (minimizeUnobserved f x { c with hessian := h }).map Solution.unflagged :=
  congrArg Prod.fst (minimize_finiteDifference provides h .silent ())

/-- Where the objective provides its Hessian, the choice of an approximation is irrelevant: up to
the flags of the records both choices have the same result, and finite differences set no flag. -/
theorem choice_irrelevant_of_providesHessian (f : Objective K n ε) (x : Vector K n) (c : Config K)
    (provides : ProvidesHessian f) :
    (∀ h h' : HessianChoice,
      (minimizeUnobserved f x { c with hessian := h }).map Solution.unflagged =
        (minimizeUnobserved f x { c with hessian := h' }).map Solution.unflagged) ∧
      ∀ sol, minimizeUnobserved f x { c with hessian := .finiteDifference } = .ok sol →
        ∀ r ∈ sol.history.toList, r.stale = false := by
  constructor
  · intro h h'
    rw [← minimizeUnobserved_finiteDifference provides h,
      ← minimizeUnobserved_finiteDifference provides h']
  · intro sol hsol r hr
    have hself := minimizeUnobserved_finiteDifference (x := x) (c := c) provides .finiteDifference
    rw [hsol] at hself
    have hhistory : sol.history = sol.history.map Record.unflagged :=
      congrArg Solution.history (Except.ok.inj hself)
    rw [hhistory, History.toList_map] at hr
    obtain ⟨r', -, rfl⟩ := List.mem_map.mp hr
    rfl

/-- Half the square, with its Hessian. -/
def halfSquare : Objective Float 1 Empty :=
  { Objective.univariate (fun t => 0.5 * t * t) (fun t => t) with
    hessian := fun _ => .ok (some identity) }

theorem choice_irrelevant_halfSquare :
    ProvidesHessian halfSquare ∧ ∃ sol sol',
      minimizeUnobserved halfSquare #v[3.0] { hessian := .sr1 } = .ok sol ∧
      minimizeUnobserved halfSquare #v[3.0] { hessian := .finiteDifference } = .ok sol' ∧
      sol.unflagged = sol'.unflagged ∧
      sol.history.toList.map Record.stale = [false, true, true] ∧
      ∀ r ∈ sol'.history.toList, r.stale = false := by
  have provides : ProvidesHessian halfSquare := fun _ => ⟨_, rfl⟩
  have hrun : (minimizeUnobserved halfSquare #v[3.0] { hessian := .sr1 }).toOption.map
      (fun sol => sol.history.toList.map Record.stale) = some [false, true, true] := by
    decide +kernel
  obtain ⟨sol, hsol, hstale⟩ := Except.toOption_map_eq_some_iff.mp hrun
  obtain ⟨hsame, hflags⟩ := choice_irrelevant_of_providesHessian halfSquare #v[3.0] {} provides
  have hunflagged := hsame .sr1 .finiteDifference
  rw [hsol] at hunflagged
  obtain ⟨sol', hsol', heq⟩ := Except.map_eq_ok_iff.mp hunflagged.symm
  exact ⟨provides, sol, sol', hsol, hsol', heq.symm, hstale, hflags sol' hsol'⟩

end LocalOptimization.TrustRegion
