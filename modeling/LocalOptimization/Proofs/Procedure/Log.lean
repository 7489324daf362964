import LocalOptimization.Proofs.Procedure.Outcome

/-!
# What the log of a run explains

An iteration works with what its state has kept of the iterations before it. Where that can be
computed from their log, an invariant of the log and the state follows both along a run, and the
log of a run without a limit on its history is that history.
-/

namespace LocalOptimization

variable {L : Type}

/-- Every entry of the log follows from the entries before it. -/
def EachFollows (Q : List L → L → Prop) (log : List L) : Prop :=
  ∀ before l later, log = before ++ l :: later → Q before l

theorem eachFollows_nil {Q : List L → L → Prop} : EachFollows Q [] := by
  intro before l later h
  simp at h

theorem eachFollows_concat_iff {Q : List L → L → Prop} {log : List L} {l : L} :
    EachFollows Q (log ++ [l]) ↔ EachFollows Q log ∧ Q log l := by
  constructor
  · intro h
    refine ⟨?_, h log l [] rfl⟩
    rintro before l' later rfl
    exact h before l' (later ++ [l]) (by simp)
  · rintro ⟨hlog, hl⟩ before l' later h
    rcases List.eq_nil_or_concat' later with rfl | ⟨later, last, rfl⟩
    · obtain ⟨rfl, hlast⟩ := List.append_inj' h rfl
      cases hlast
      exact hl
    · rw [← List.cons_append, ← List.append_assoc] at h
      obtain ⟨hsplit, -⟩ := List.append_inj' h rfl
      exact hlog before l' later hsplit

/-- A log that can be replayed: its first entry is a start, and every other entry follows from those
before it, the last of which it takes up from. -/
structure Replayable (Starts : L → Prop) (Follows : List L → L → L → Prop) (log : List L) :
    Prop where
  starts : ∃ first later, log = first :: later ∧ Starts first
  follows : EachFollows (fun log l => ∀ earlier last, log = earlier ++ [last] → Follows log last l)
    log

section Replayable

variable {Starts : L → Prop} {Follows : List L → L → L → Prop} {earlier : List L} {last l : L}

theorem replayable_singleton (h : Starts l) : Replayable Starts Follows [l] where
  starts := ⟨l, [], rfl, h⟩
  follows := by
    rw [← List.nil_append [l], eachFollows_concat_iff]
    refine ⟨eachFollows_nil, ?_⟩
    intro earlier last hlog
    simp at hlog

theorem Replayable.concat (hlog : Replayable Starts Follows (earlier ++ [last]))
    (h : Follows (earlier ++ [last]) last l) :
    Replayable Starts Follows (earlier ++ [last] ++ [l]) where
  starts := by
    obtain ⟨first, later, hsplit, hfirst⟩ := hlog.starts
    exact ⟨first, later ++ [l], by rw [hsplit, List.cons_append], hfirst⟩
  follows := by
    refine eachFollows_concat_iff.mpr ⟨hlog.follows, ?_⟩
    intro earlier' last' hsplit
    obtain ⟨-, hlast⟩ := List.append_inj' hsplit rfl
    cases hlast
    exact h

end Replayable

/-- What comes of every entry of the log and the next one. -/
def changes {B : Type} (change : L → L → B) (log : List L) : List B :=
  log.zipWith change log.tail

theorem changes_concat {B : Type} (change : L → L → B) (log : List L) (before after : L) :
    changes change (log ++ [before] ++ [after]) =
      changes change (log ++ [before]) ++ [change before after] := by
  induction log with
  | nil => rfl
  | cons l log ih =>
      cases log with
      | nil => rfl
      | cons next log => exact congrArg (change l next :: ·) ih

variable {S E R ε A σ : Type} {m : Iteration S E R ε} {event : L → E}
  {P : Nat → List L → S → Prop}

/-- Where every iteration adds an entry on its event to the log, a chain adds one on each of its
events. -/
theorem Iteration.Chain.exists_log
    (step : ∀ i log s t e, P i log s → m.advance (i + 1) s = .ok (some (t, e)) →
      ∃ l, event l = e ∧ P (i + 1) (log ++ [l]) t)
    {i : Nat} {s t : S} {events : List E} (chain : m.Chain i s events t) {log : List L}
    (hs : P i log s) :
    ∃ added, added.map event = events ∧ P (i + events.length) (log ++ added) t := by
  induction chain generalizing log with
  | nil => exact ⟨[], rfl, by rwa [List.append_nil]⟩
  | @cons i s u t e events running advanced rest ih =>
      obtain ⟨l, rfl, hu⟩ := step _ _ _ _ _ hs advanced
      obtain ⟨added, rfl, ht⟩ := ih hu
      refine ⟨l :: added, rfl, ?_⟩
      rw [List.length_cons, Nat.add_comm _ 1, ← Nat.add_assoc]
      rwa [List.append_assoc] at ht

namespace Procedure

variable {p : Procedure S E R ε A} {o : Observer σ E} {w : σ}

theorem Outcome.toList_history {first : S} {events : List E} {e : Ending S R}
    (outcome : p.Outcome first events e) (unlimited : p.limit = none) :
    e.history.toList = (p.reported first ++ events).map p.iteration.record := by
  rw [outcome.history, History.toList_foldl_push_of_limit_eq_none _ unlimited]
  rfl

theorem exists_log (event : L → E) {solve : Solver E ε A} (hrun : p.run = solve)
    (unlimited : p.limit = none)
    (hstart : ∀ s, p.start = .ok s → ∃ log, log.map event = p.reported s ∧ P 0 log s)
    (step : ∀ i log s t e, P i log s → p.iteration.advance (i + 1) s = .ok (some (t, e)) →
      ∃ l, event l = e ∧ P (i + 1) (log ++ [l]) t)
    {a : A} (h : (solve σ o w).1 = .ok a) :
    ∃ log e, e.history.toList = log.map (p.iteration.record ∘ event) ∧
      P e.iterations log e.state ∧ p.solution e = a := by
  obtain ⟨first, events, e, hfirst, outcome, ha⟩ := exists_outcome_of_run hrun h
  obtain ⟨log, hlog, hP⟩ := hstart first hfirst
  obtain ⟨added, hadded, hP⟩ := outcome.chain.exists_log step hP
  rw [Nat.zero_add, ← outcome.iterations] at hP
  refine ⟨log ++ added, e, ?_, hP, ha⟩
  rw [outcome.toList_history unlimited, ← hlog, ← hadded, ← List.map_append, List.map_map]

theorem exists_log_of_reports (event : L → E) {solve : Solver E ε A} (hrun : p.run = solve)
    (unlimited : p.limit = none) {report : S → E} (hreport : p.startEvent = some report)
    {P : Nat → List L → L → S → Prop}
    (hstart : ∀ s, p.start = .ok s → ∃ l, event l = report s ∧ P 0 [] l s)
    (step : ∀ i earlier last s t e, P i earlier last s →
      p.iteration.advance (i + 1) s = .ok (some (t, e)) →
        ∃ l, event l = e ∧ P (i + 1) (earlier ++ [last]) l t)
    {a : A} (h : (solve σ o w).1 = .ok a) :
    ∃ earlier last e,
      e.history.toList = (earlier ++ [last]).map (p.iteration.record ∘ event) ∧
      P e.iterations earlier last e.state ∧ p.solution e = a := by
  let Q (i : Nat) (log : List L) (s : S) : Prop :=
    ∃ earlier last, log = earlier ++ [last] ∧ P i earlier last s
  have hfirst : ∀ s, p.start = .ok s → ∃ log, log.map event = p.reported s ∧ Q 0 log s := by
    intro s hs
    obtain ⟨l, hl, hP⟩ := hstart s hs
    refine ⟨[l], ?_, [], l, rfl, hP⟩
    rw [List.map_singleton, hl, reported, hreport]
    rfl
  have hnext : ∀ i log s t e, Q i log s → p.iteration.advance (i + 1) s = .ok (some (t, e)) →
      ∃ l, event l = e ∧ Q (i + 1) (log ++ [l]) t := by
    rintro i log s t e ⟨earlier, last, rfl, hP⟩ hadvance
    obtain ⟨l, hl, hP⟩ := step i earlier last s t e hP hadvance
    exact ⟨l, hl, earlier ++ [last], l, rfl, hP⟩
  obtain ⟨log, e, hhistory, ⟨earlier, last, rfl, hP⟩, ha⟩ :=
    exists_log event hrun unlimited hfirst hnext h
  exact ⟨earlier, last, e, hhistory, hP, ha⟩

end Procedure

end LocalOptimization
