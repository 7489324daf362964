import Mathlib
import LocalOptimization.Difference
import LocalOptimization.Proofs.Except

/-!
# Probes of a difference

A difference evaluates the function on both sides of a point, coordinate by coordinate. It fails
where one of these evaluations does, with the error of the first that does. The differences of the
components of a map are the rows of its Jacobian, since they are made from the same probes.
-/

namespace LocalOptimization.Difference

section Failure

variable {β α ε : Type} {f : β → Except ε α} {p : β} {ps qs : List β} {e : ε}

/-- Of these points, evaluated one after the other, the first at which the function fails gives this
error. -/
def FailsFirst (f : β → Except ε α) (points : List β) (e : ε) : Prop :=
  ∃ before point after, points = before ++ point :: after ∧
    (∀ p ∈ before, ∃ a, f p = .ok a) ∧ f point = .error e

theorem not_failsFirst_nil : ¬ FailsFirst f [] e := by
  rintro ⟨before, point, after, h, -⟩
  exact List.append_ne_nil_of_right_ne_nil before (List.cons_ne_nil point after) h.symm

theorem failsFirst_cons_iff :
    FailsFirst f (p :: ps) e ↔ f p = .error e ∨ (∃ a, f p = .ok a) ∧ FailsFirst f ps e := by
  constructor
  · rintro ⟨before, point, after, hsplit, hbefore, hpoint⟩
    rcases List.cons_eq_append_iff.mp hsplit with ⟨rfl, hcons⟩ | ⟨before, rfl, rfl⟩
    · obtain ⟨rfl, rfl⟩ := List.cons.inj hcons
      exact .inl hpoint
    · rw [List.forall_mem_cons] at hbefore
      exact .inr ⟨hbefore.1, before, point, after, rfl, hbefore.2, hpoint⟩
  · rintro (hpoint | ⟨hp, before, point, after, rfl, hbefore, hpoint⟩)
    · exact ⟨[], p, ps, rfl, by simp, hpoint⟩
    · exact ⟨p :: before, point, after, rfl, List.forall_mem_cons.mpr ⟨hp, hbefore⟩, hpoint⟩

theorem failsFirst_append_iff :
    FailsFirst f (ps ++ qs) e ↔
      FailsFirst f ps e ∨ (∀ p ∈ ps, ∃ a, f p = .ok a) ∧ FailsFirst f qs e := by
  induction ps with
  | nil => simp [not_failsFirst_nil]
  | cons p ps ih =>
      rw [List.cons_append, failsFirst_cons_iff, failsFirst_cons_iff, ih, List.forall_mem_cons]
      tauto

theorem exists_failsFirst_iff :
    (∃ e, FailsFirst f ps e) ↔ ∃ p ∈ ps, ∃ e, f p = .error e := by
  induction ps with
  | nil => simp [not_failsFirst_nil]
  | cons p ps ih =>
      simp only [failsFirst_cons_iff, List.mem_cons, exists_eq_or_imp, ← ih]
      cases f p <;> simp

/-- The result is an error where an evaluation at one of the points fails, and then it is the error
of the first that does. -/
structure FailsAsProbed {γ : Type} (f : β → Except ε α) (points : List β) (result : Except ε γ) :
    Prop where
  fails : (∃ e, result = .error e) ↔ ∃ p ∈ points, ∃ e, f p = .error e
  first : ∀ e, result = .error e ↔ FailsFirst f points e

namespace FailsAsProbed

variable {γ δ : Type} {result : Except ε γ}

theorem of_first (first : ∀ e, result = .error e ↔ FailsFirst f ps e) :
    FailsAsProbed f ps result where
  fails := by simp only [first, exists_failsFirst_iff]
  first := first

theorem pure (c : γ) : FailsAsProbed f [] (.ok c) :=
  of_first fun e => by simp [not_failsFirst_nil]

theorem evaluation (f : β → Except ε α) (p : β) : FailsAsProbed f [p] (f p) :=
  of_first fun e => by simp [failsFirst_cons_iff, not_failsFirst_nil]

theorem exists_ok_iff (h : FailsAsProbed f ps result) :
    (∃ c, result = .ok c) ↔ ∀ p ∈ ps, ∃ a, f p = .ok a := by
  have hnot {δ : Type} (r : Except ε δ) : (∃ c, r = .ok c) ↔ ¬ ∃ e, r = .error e := by
    cases r <;> simp
  rw [hnot, h.fails]
  simp only [hnot, not_exists, not_and]

theorem bind {next : γ → Except ε δ} (h : FailsAsProbed f ps result)
    (hnext : ∀ c, FailsAsProbed f qs (next c)) : FailsAsProbed f (ps ++ qs) (result >>= next) := by
  apply of_first
  intro e
  simp only [Except.bind_eq_error_iff, (hnext _).first, exists_and_right, h.first,
    h.exists_ok_iff, failsFirst_append_iff]

theorem map (h : FailsAsProbed f ps result) (g : γ → δ) : FailsAsProbed f ps (result.map g) :=
  of_first fun e => by rw [Except.map_eq_error_iff, h.first]

theorem ofFnM {n : Nat} {points : Fin n → List β} {parts : Fin n → Except ε γ}
    (h : ∀ i, FailsAsProbed f (points i) (parts i)) :
    FailsAsProbed f ((List.finRange n).flatMap points) (Vector.ofFnM parts) := by
  induction n with
  | zero =>
      rw [Vector.ofFnM_zero]
      exact pure _
  | succ n ih =>
      -- The first part is taken off, not the last: failures come in the order of the evaluations.
      rw [Vector.ofFnM_succ', List.finRange_succ, List.flatMap_cons, List.flatMap_map]
      refine (h 0).bind fun first => ?_
      exact (ih fun i => h i.succ).map _

end FailsAsProbed

end Failure

section Probes

variable {K : Type} [Arithmetic K] {n : Nat} {ε α β : Type}
variable {step : K} {f : Vector K n → Except ε α} {x : Vector K n} {e : ε}

/-- The points that a difference probes, in their order: on both sides of `x` along one coordinate
after the other. -/
def probePoints (step : K) (x : Vector K n) : List (Vector K n) :=
  (List.finRange n).flatMap fun (i : Fin n) =>
    [x.set i (x.get i + step) i.isLt, x.set i (x.get i - step) i.isLt]

theorem failsAsProbed_probe (step : K) (f : Vector K n → Except ε α) (x : Vector K n) (i : Fin n) :
    FailsAsProbed f [x.set i (x.get i + step) i.isLt, x.set i (x.get i - step) i.isLt]
      (probe step f x i) := by
  refine (FailsAsProbed.evaluation f _).bind fun forward => ?_
  exact (FailsAsProbed.evaluation f _).bind fun backward => .pure (Probe.mk forward backward)

theorem failsAsProbed_probes (step : K) (f : Vector K n → Except ε α) (x : Vector K n) :
    FailsAsProbed f (probePoints step x) (probes step f x) :=
  .ofFnM fun i => failsAsProbed_probe step f x i

theorem failsAsProbed_gradient (f : Vector K n → Except ε K) (x : Vector K n) :
    FailsAsProbed f (probePoints gradientStep x) (gradient f x) :=
  (failsAsProbed_probes gradientStep f x).map _

theorem failsAsProbed_jacobianWith (step : K) (f : Vector K n → Except ε (Vector K n))
    (x : Vector K n) : FailsAsProbed f (probePoints step x) (jacobianWith step f x) :=
  (failsAsProbed_probes step f x).map _

theorem failsAsProbed_hessian (g : Vector K n → Except ε (Vector K n)) (x : Vector K n) :
    FailsAsProbed g (probePoints hessianStep x) (hessian g x) :=
  (failsAsProbed_jacobianWith hessianStep g x).map symmetrize

end Probes

section Rows

variable {K : Type} [Arithmetic K] {n : Nat} {ε α β : Type}
variable {step : K} {f : Vector K n → Except ε α} {x : Vector K n}

theorem ofFnM_map {n : Nat} (parts : Fin n → Except ε α) (h : α → β) :
    Vector.ofFnM (fun i => (parts i).map h) = (Vector.ofFnM parts).map (Vector.map h) := by
  induction n with
  | zero =>
      rw [Vector.ofFnM_zero, Vector.ofFnM_zero]
      exact congrArg Except.ok Vector.map_empty.symm
  | succ n ih =>
      rw [Vector.ofFnM_succ, Vector.ofFnM_succ, ih]
      cases Vector.ofFnM fun i : Fin n => parts i.castSucc with
      | error e => rfl
      | ok firsts =>
          cases parts (Fin.last n) with
          | error e => rfl
          | ok last => exact congrArg Except.ok (Vector.map_push ..).symm

/-- Both values of a probe after a function. -/
def Probe.map (h : α → β) (p : Probe α) : Probe β where
  forward := h p.forward
  backward := h p.backward

theorem probes_map (step : K) (f : Vector K n → Except ε α) (x : Vector K n) (h : α → β) :
    probes step (fun y => (f y).map h) x =
      (probes step f x).map (Vector.map (Probe.map h)) := by
  rw [probes, probes, ← ofFnM_map]
  congr 1
  funext i
  rw [probe, probe]
  cases f (x.set i (x[i] + step)) with
  | error e => rfl
  | ok forward =>
      cases f (x.set i (x[i] - step)) with
      | error e => rfl
      | ok backward => rfl

/-- Row `i` of a Jacobian is the gradient of component `i`, also where one of them fails. -/
theorem gradient_component (f : Vector K n → Except ε (Vector K n)) (x : Vector K n) (i : Fin n) :
    gradient (fun y => (f y).map (·.get i)) x = (jacobian f x).map (·.get i) := by
  rw [gradient, probes_map, jacobian, jacobianWith]
  cases probes gradientStep f x with
  | error e => rfl
  | ok ps =>
      refine congrArg Except.ok ?_
      ext j hj
      simp [Vector.get_eq_getElem, Probe.map]

end Rows

section Symmetry

variable {K : Type} [Arithmetic K] {n : Nat} {ε : Type}

theorem get_symmetrize_comm (m : Matrix K n) (i j : Fin n) :
    ((symmetrize m).get i).get j = ((symmetrize m).get j).get i := by
  simp only [symmetrize, Vector.get_eq_getElem, Vector.getElem_ofFn]
  rcases lt_trichotomy i j with hlt | rfl | hgt
  · rw [if_pos hlt, if_neg (lt_asymm hlt), if_pos hlt]
  · rfl
  · rw [if_neg (lt_asymm hgt), if_pos hgt, if_pos hgt]

theorem isSymmetric_of_hessian {g : Vector K n → Except ε (Vector K n)} {x : Vector K n}
    {h : Matrix K n} (hh : hessian g x = .ok h) (i j : Fin n) :
    (h.get i).get j = (h.get j).get i := by
  obtain ⟨m, -, hm⟩ := Except.map_eq_ok_iff.mp hh
  rw [← hm]
  exact get_symmetrize_comm m i j

end Symmetry

end LocalOptimization.Difference
