import Mathlib
import LocalOptimization.Linear
import LocalOptimization.Scalar.Float

/-!
# Facts about doubles

A finite sum or product has finite operands, one that is not NaN has none that is, and `<` is the
order of a linear rank on the numbers that are not NaN. Operations on doubles unpack their operands,
compute and pack the result, so each fact is first one about unpacked numbers.
-/

namespace LocalOptimization.Double

open Float.Model Float.Model.UnpackedFloat

section Packing

theorem isFinite_of_isFinite_pack {u : UnpackedFloat}
    (h : (Float.Model.pack u).isFinite = true) : u.isFinite = true := by
  cases u with
  | infinity sign => cases sign <;> exact absurd h (by decide)
  | notANumber => exact absurd h (by decide)
  | zero sign => rfl
  | finite sign mantissa exponent positive => rfl

theorem unpackMantissa_pack_finite {sign : Sign} {mantissa : Nat} {exponent : Int}
    {positive : 0 < mantissa}
    (h : unpackExponent
      (UnpackedFloat.pack Format.binary64 (.finite sign mantissa exponent positive)) = -1#_) :
    unpackMantissa
      (UnpackedFloat.pack Format.binary64 (.finite sign mantissa exponent positive)) = 0#_ := by
  rw [UnpackedFloat.pack] at h ⊢
  dsimp only at h ⊢
  split at h
  next hlarge =>
    rw [if_pos hlarge, packedInfinity]
    exact unpackMantissa_packComponents
  next hsmall =>
    exfalso
    split at h
    next =>
      rw [unpackExponent_packComponents] at h
      have hbits := congrArg BitVec.toNat h
      simp at hbits hsmall
      omega
    next =>
      rw [unpackExponent_packComponents] at h
      exact absurd h (by decide)

theorem isNaN_of_isNaN_pack {u : UnpackedFloat} (h : (Float.Model.pack u).isNaN = true) :
    u.isNaN = true := by
  cases u with
  | infinity sign => cases sign <;> exact absurd h (by decide)
  | notANumber => rfl
  | zero sign => cases sign <;> exact absurd h (by decide)
  | finite sign mantissa exponent positive =>
      exfalso
      simp only [Float.Model.isNaN, Float.Model.unpack, Float.Model.pack, UnpackedFloat.unpack,
        UInt64.toBitVec_ofBitVec] at h
      split at h
      next hexponent =>
        rw [if_pos (unpackMantissa_pack_finite hexponent)] at h
        simp [UnpackedFloat.isNaN] at h
      next => split at h <;> (try split at h) <;> simp [UnpackedFloat.isNaN] at h

theorem isNaN_pack (u : UnpackedFloat) : (Float.Model.pack u).isNaN = u.isNaN := by
  cases h : u.isNaN with
  | true =>
      cases u <;> cases h
      rfl
  | false =>
      rw [Bool.eq_false_iff]
      intro hnan
      rw [isNaN_of_isNaN_pack hnan] at h
      cases h

end Packing

section Finite

theorem isFinite_infinity : Scalar.isFinite (Scalar.infinity : Float) = false := by
  decide

theorem isNaN_eq_false_of_isFinite_abs {a : Float} (h : a.isFinite = true) :
    a.abs.isNaN = false := by
  rw [Bool.eq_false_iff]
  intro hnan
  have habs : a.toModel.unpack.abs.isNaN = true := isNaN_of_isNaN_pack hnan
  have hfinite : a.toModel.unpack.isFinite = true := h
  cases hu : a.toModel.unpack <;>
    simp_all [UnpackedFloat.isFinite, UnpackedFloat.isNaN, UnpackedFloat.abs]

theorem unpacked_isFinite_of_add {u v : UnpackedFloat}
    (h : (UnpackedFloat.add Format.binary64 u v).isFinite = true) :
    u.isFinite = true ∧ v.isFinite = true := by
  cases u <;> cases v <;> try simp_all [UnpackedFloat.add, UnpackedFloat.isFinite]; done
  case infinity.infinity sign sign' =>
      rw [UnpackedFloat.add] at h
      split at h <;> exact absurd h Bool.false_ne_true

theorem unpacked_isFinite_of_sub {u v : UnpackedFloat}
    (h : (UnpackedFloat.sub Format.binary64 u v).isFinite = true) :
    u.isFinite = true ∧ v.isFinite = true := by
  cases u <;> cases v <;> try simp_all [UnpackedFloat.sub, UnpackedFloat.isFinite]; done
  case infinity.infinity sign sign' =>
      rw [UnpackedFloat.sub] at h
      split at h <;> exact absurd h Bool.false_ne_true

theorem unpacked_isFinite_of_mul {u v : UnpackedFloat}
    (h : (UnpackedFloat.mul Format.binary64 u v).isFinite = true) :
    u.isFinite = true ∧ v.isFinite = true := by
  cases u <;> cases v <;> simp_all [UnpackedFloat.mul, UnpackedFloat.isFinite]

theorem isFinite_of_isFinite_add {a b : Float} (h : (a + b).isFinite = true) :
    a.isFinite = true ∧ b.isFinite = true :=
  unpacked_isFinite_of_add (isFinite_of_isFinite_pack h)

theorem isFinite_of_isFinite_sub {a b : Float} (h : (a - b).isFinite = true) :
    a.isFinite = true ∧ b.isFinite = true :=
  unpacked_isFinite_of_sub (isFinite_of_isFinite_pack h)

theorem isFinite_of_isFinite_mul {a b : Float} (h : (a * b).isFinite = true) :
    a.isFinite = true ∧ b.isFinite = true :=
  unpacked_isFinite_of_mul (isFinite_of_isFinite_pack h)

theorem forall_of_sum {P : Float → Prop} (add : ∀ a b, P (a + b) → P a ∧ P b) {xs : List Float}
    (h : P (Scalar.sum xs)) : ∀ x ∈ xs, P x := by
  suffices ∀ a : Float, P (xs.foldl (· + ·) a) → P a ∧ ∀ x ∈ xs, P x from (this _ h).2
  clear h
  induction xs with
  | nil => exact fun a h => ⟨h, by simp⟩
  | cons x xs ih =>
      intro a h
      obtain ⟨hax, hxs⟩ := ih (a + x) h
      obtain ⟨ha, hx⟩ := add a x hax
      exact ⟨ha, List.forall_mem_cons.mpr ⟨hx, hxs⟩⟩

theorem isFinite_of_isFinite_sum {xs : List Float} (h : (Scalar.sum xs).isFinite = true) :
    ∀ x ∈ xs, x.isFinite = true :=
  forall_of_sum (P := fun a => a.isFinite = true) (fun _ _ => isFinite_of_isFinite_add) h

end Finite

section NotANumber

theorem unpacked_isNaN_eq_false_of_add {u v : UnpackedFloat}
    (h : (UnpackedFloat.add Format.binary64 u v).isNaN = false) :
    u.isNaN = false ∧ v.isNaN = false := by
  cases u <;> cases v <;> simp_all [UnpackedFloat.add, UnpackedFloat.isNaN]

theorem unpacked_isNaN_eq_false_of_sub {u v : UnpackedFloat}
    (h : (UnpackedFloat.sub Format.binary64 u v).isNaN = false) :
    u.isNaN = false ∧ v.isNaN = false := by
  cases u <;> cases v <;> simp_all [UnpackedFloat.sub, UnpackedFloat.isNaN]

theorem unpacked_isNaN_eq_false_of_mul {u v : UnpackedFloat}
    (h : (UnpackedFloat.mul Format.binary64 u v).isNaN = false) :
    u.isNaN = false ∧ v.isNaN = false := by
  cases u <;> cases v <;> simp_all [UnpackedFloat.mul, UnpackedFloat.isNaN]

theorem isNaN_eq_false_of_add {a b : Float} (h : (a + b).isNaN = false) :
    a.isNaN = false ∧ b.isNaN = false :=
  unpacked_isNaN_eq_false_of_add ((isNaN_pack _).symm.trans h)

theorem isNaN_eq_false_of_sub {a b : Float} (h : (a - b).isNaN = false) :
    a.isNaN = false ∧ b.isNaN = false :=
  unpacked_isNaN_eq_false_of_sub ((isNaN_pack _).symm.trans h)

theorem isNaN_eq_false_of_mul {a b : Float} (h : (a * b).isNaN = false) :
    a.isNaN = false ∧ b.isNaN = false :=
  unpacked_isNaN_eq_false_of_mul ((isNaN_pack _).symm.trans h)

theorem isNaN_eq_false_of_sum {xs : List Float} (h : (Scalar.sum xs).isNaN = false) :
    ∀ x ∈ xs, x.isNaN = false :=
  forall_of_sum (P := fun a => a.isNaN = false) (fun _ _ => isNaN_eq_false_of_add) h

theorem isNaN_eq_false_of_dot {n : Nat} {v w : Vector Float n} (h : (dot v w).isNaN = false)
    (i : Fin n) : (v.get i).isNaN = false ∧ (w.get i).isNaN = false := by
  apply isNaN_eq_false_of_mul
  apply isNaN_eq_false_of_sum h
  rw [Vector.mem_toList_iff, Vector.mem_iff_getElem]
  exact ⟨i, i.isLt, by rw [Vector.getElem_zipWith]; rfl⟩

end NotANumber

section Order

/-- The place of a number that is not NaN among all doubles: sign and kind, then the exponent, then
the mantissa. -/
def rank : UnpackedFloat → ℤ ×ₗ ℤ ×ₗ ℤ
  | .infinity .negative => toLex (-2, toLex (0, 0))
  | .finite .negative m e _ => toLex (-1, toLex (-e, -m))
  | .zero _ | .notANumber => toLex (0, toLex (0, 0))
  | .finite .positive m e _ => toLex (1, toLex (e, m))
  | .infinity .positive => toLex (2, toLex (0, 0))

theorem unpacked_lt_iff (u v : UnpackedFloat) :
    u.lt v = true ↔ u.isNaN = false ∧ v.isNaN = false ∧ rank u < rank v := by
  rcases u with (_ | _) | _ | _ | ⟨_ | _, m, e, _⟩ <;>
    rcases v with (_ | _) | _ | _ | ⟨_ | _, m', e', _⟩ <;>
    simp [UnpackedFloat.lt, UnpackedFloat.compare, UnpackedFloat.isNaN, rank,
      Prod.Lex.toLex_lt_toLex, Ordering.then_eq_lt, Ordering.then_eq_gt, Ordering.swap_eq_lt,
      compare_lt_iff_lt, compare_gt_iff_gt]
  all_goals rfl

/-- Comparisons with NaN are false, and all others are those of the rank. -/
theorem lt_iff (a b : Float) :
    a < b ↔ a.isNaN = false ∧ b.isNaN = false ∧
      rank a.toModel.unpack < rank b.toModel.unpack := by
  have hdecide : a < b ↔ a.toModel.unpack.lt b.toModel.unpack = true := decide_eq_true_iff
  rw [hdecide]
  exact unpacked_lt_iff _ _

theorem unpacked_le_iff (u v : UnpackedFloat) :
    u.le v = true ↔ u.isNaN = false ∧ v.isNaN = false ∧ rank u ≤ rank v := by
  have hge : ∀ o o' : Ordering, (o.then o').isGE ↔ o = .gt ∨ (o = .eq ∧ o'.isGE) := by decide
  rcases u with (_ | _) | _ | _ | ⟨_ | _, m, e, _⟩ <;>
    rcases v with (_ | _) | _ | _ | ⟨_ | _, m', e', _⟩ <;>
    simp [UnpackedFloat.le, UnpackedFloat.compare, UnpackedFloat.isNaN, rank,
      Prod.Lex.toLex_le_toLex, Ordering.isLE_then_iff_or, hge, compare_lt_iff_lt,
      compare_gt_iff_gt, Nat.isLE_compare, Nat.isGE_compare]
  all_goals rfl

theorem le_iff (a b : Float) :
    a ≤ b ↔ a.isNaN = false ∧ b.isNaN = false ∧
      rank a.toModel.unpack ≤ rank b.toModel.unpack := by
  have hdecide : a ≤ b ↔ a.toModel.unpack.le b.toModel.unpack = true := decide_eq_true_iff
  rw [hdecide]
  exact unpacked_le_iff _ _

theorem unpacked_beq_iff (u v : UnpackedFloat) :
    u.beq v = true ↔ u.isNaN = false ∧ v.isNaN = false ∧ rank u = rank v := by
  rcases u with (_ | _) | _ | _ | ⟨_ | _, m, e, _⟩ <;>
    rcases v with (_ | _) | _ | _ | ⟨_ | _, m', e', _⟩ <;>
    simp [UnpackedFloat.beq, UnpackedFloat.compare, UnpackedFloat.isNaN, rank,
      Ordering.then_eq_eq, Ordering.swap_eq_eq]
  all_goals rfl

theorem beq_iff (a b : Float) :
    (a == b) = true ↔ a.isNaN = false ∧ b.isNaN = false ∧
      rank a.toModel.unpack = rank b.toModel.unpack :=
  unpacked_beq_iff _ _

theorem neg_iff (a : Float) : a < 0.0 ↔ ¬ (0.0 ≤ a ∨ Scalar.isNaN a = true) := by
  have hzero : (0.0 : Float).isNaN = false := by decide
  rw [lt_iff, le_iff, hzero]
  change _ ↔ ¬ (_ ∨ a.isNaN = true)
  cases a.isNaN <;> simp

theorem lt_trans {a b c : Float} (hab : a < b) (hbc : b < c) : a < c := by
  rw [lt_iff] at *
  exact ⟨hab.1, hbc.2.1, hab.2.2.trans hbc.2.2⟩

theorem lt_of_not_lt {a b c : Float} (hab : ¬ a < b) (ha : a.isNaN = false) (hac : a < c) :
    b < c ∨ b.isNaN = true := by
  cases hb : b.isNaN with
  | true => exact .inr rfl
  | false =>
      rw [lt_iff] at hab hac
      rw [lt_iff]
      have hle : rank b.toModel.unpack ≤ rank a.toModel.unpack := by
        apply le_of_not_gt
        intro hgt
        exact hab ⟨ha, hb, hgt⟩
      exact .inl ⟨hb, hac.2.1, lt_of_le_of_lt hle hac.2.2⟩

theorem isNaN_of_isNaN_max {a b : Float} (h : (Scalar.max a b).isNaN = true) :
    a.isNaN = true ∧ b.isNaN = true := by
  rw [Scalar.max] at h
  split at h
  next hab =>
    rw [((lt_iff a b).mp hab).2.1] at h
    cases h
  next =>
    split at h
    next ha => exact ⟨ha, h⟩
    next ha => exact absurd h ha

theorem lt_of_max_lt {a b t : Float} (h : Scalar.max a b < t) :
    (a < t ∨ a.isNaN = true) ∧ (b < t ∨ b.isNaN = true) := by
  rw [Scalar.max] at h
  split at h
  next hab => exact ⟨.inl (lt_trans hab h), .inl h⟩
  next hab =>
    split at h
    next ha => exact ⟨.inr ha, .inl h⟩
    next ha => exact ⟨.inl h, lt_of_not_lt hab (Bool.eq_false_iff.mpr ha) h⟩

theorem lt_of_foldl_max_lt {xs : List Float} {a t : Float} (h : xs.foldl Scalar.max a < t) :
    (a < t ∨ a.isNaN = true) ∧ ∀ x ∈ xs, x < t ∨ x.isNaN = true := by
  induction xs generalizing a with
  | nil => exact ⟨.inl h, by simp⟩
  | cons x xs ih =>
      obtain ⟨hmax, hxs⟩ := ih h
      rcases hmax with hlt | hnan
      · obtain ⟨ha, hx⟩ := lt_of_max_lt hlt
        exact ⟨ha, List.forall_mem_cons.mpr ⟨hx, hxs⟩⟩
      · obtain ⟨ha, hx⟩ := isNaN_of_isNaN_max hnan
        exact ⟨.inr ha, List.forall_mem_cons.mpr ⟨.inr hx, hxs⟩⟩

end Order

end LocalOptimization.Double
