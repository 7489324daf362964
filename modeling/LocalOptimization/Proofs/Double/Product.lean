import LocalOptimization.Proofs.OrderedScalar

/-!
# Products that do not vanish

A product may be rounded to zero, but not where the exact one is at least the least positive
double. So a positive double stays positive when it is multiplied by a number from 1 on.
-/

namespace LocalOptimization.Double

open Float.Model Float.Model.UnpackedFloat

section Rounding

theorem mantissa_shiftRight (em : ExtendedMantissa) (k : ℕ) :
    (em >>> k).mantissa = em.mantissa / 2 ^ k := by
  induction k with
  | zero => simp [HShiftRight.hShiftRight, Nat.repeat]
  | succ k ih =>
      change ((em >>> k).shiftRightOne).mantissa = _
      rw [ExtendedMantissa.shiftRightOne, ih, Nat.div_div_eq_div_mul, pow_succ]

theorem le_roundedMantissa (em : ExtendedMantissa) : em.mantissa ≤ em.roundedMantissa := by
  rcases em with ⟨m, _ | _, _ | _⟩ <;>
    simp only [ExtendedMantissa.roundedMantissa, ExtendedMantissa.accuracy,
      Accuracy.roundToNearestEven] <;> omega

theorem roundWithAccuracy_of_carry {s : Sign} {m : ℕ} {e t : ℤ}
    (ht : Format.binary64.targetExponent (totalExponent m e) = t) (het : e ≤ t)
    (hr : ((⟨m, false, false⟩ : ExtendedMantissa) >>> (t - e).toNat).roundedMantissa = 2 ^ 53) :
    roundWithAccuracy Format.binary64 s m e .exact =
      .finite s (2 ^ 52) (t + 1) (by decide) := by
  have hexponent : e + (t - e).toNat = t := by omega
  have hmin : -1074 ≤ t := ht ▸ le_max_right _ _
  have hshift : (Format.binary64.targetExponent (totalExponent (2 ^ 53) t) - t).toNat = 1 := by
    rw [targetExponent_eq, Nat.log2_two_pow]
    omega
  simp only [roundWithAccuracy, shiftToTargetExponent, shiftToExponent, ht,
    ExtendedMantissa.ofMantissaAndAccuracy, hr, hexponent, hshift]
  simp [HShiftRight.hShiftRight, Nat.repeat, ExtendedMantissa.shiftRightOne]

theorem exists_roundWithAccuracy_eq {m : ℕ} {e : ℤ} (hlong : 2 ^ 52 ≤ m)
    (hleast : -1074 ≤ m.log2 + e) :
    ∃ r t, ∃ hr : 0 < r,
      roundWithAccuracy Format.binary64 .positive m e .exact = .finite .positive r t hr ∧
        r < 2 ^ 53 ∧ -1074 ≤ t ∧ (2 ^ 52 ≤ r ∨ t = -1074) := by
  have hm : m ≠ 0 := by omega
  have hlog : 52 ≤ m.log2 := (Nat.le_log2 hm).mpr hlong
  obtain ⟨t, ht⟩ : ∃ t, max (m.log2 + e - 52) (-1074) = t := ⟨_, rfl⟩
  have htarget := targetExponent_eq (m := m) (e := e) |>.trans ht
  have het : e ≤ t := by omega
  have hkept : ((⟨m, false, false⟩ : ExtendedMantissa) >>> (t - e).toNat).mantissa =
      m / 2 ^ (t - e).toNat := mantissa_shiftRight _ _
  have hupper : m / 2 ^ (t - e).toNat < 2 ^ 53 := by
    rw [Nat.div_lt_iff_lt_mul (Nat.two_pow_pos _), ← pow_add]
    exact Nat.lt_log2_self.trans_le (Nat.pow_le_pow_right (by decide) (by omega))
  have hlower : 0 < m / 2 ^ (t - e).toNat := by
    apply Nat.div_pos _ (Nat.two_pow_pos _)
    exact (Nat.pow_le_pow_right (by decide) (by omega)).trans (Nat.log2_self_le hm)
  have hnormal : 2 ^ 52 ≤ m / 2 ^ (t - e).toNat ∨ t = -1074 := by
    rcases le_or_gt (m.log2 + e - 52) (-1074) with hsubnormal | hnormal
    · exact .inr (by omega)
    · left
      rw [Nat.le_div_iff_mul_le (Nat.two_pow_pos _), ← pow_add]
      exact (Nat.pow_le_pow_right (by decide) (by omega)).trans (Nat.log2_self_le hm)
  have hrounded := le_roundedMantissa ((⟨m, false, false⟩ : ExtendedMantissa) >>> (t - e).toNat)
  have hcarry := roundedMantissa_le ((⟨m, false, false⟩ : ExtendedMantissa) >>> (t - e).toNat)
  rw [hkept] at hrounded hcarry
  obtain ⟨r, hr⟩ : ∃ r, ((⟨m, false, false⟩ : ExtendedMantissa) >>>
    (t - e).toNat).roundedMantissa = r := ⟨_, rfl⟩
  rw [hr] at hrounded hcarry
  rcases Nat.lt_or_ge r (2 ^ 53) with hfit | hover
  · refine ⟨r, t, by omega, ?_, hfit, by omega, by omega⟩
    rw [roundWithAccuracy_eq htarget het hr hfit, dif_neg (by omega)]
  · obtain rfl : r = 2 ^ 53 := by omega
    exact ⟨2 ^ 52, t + 1, by decide, roundWithAccuracy_of_carry htarget het hr, by decide,
      by omega, .inl le_rfl⟩

theorem positive_pack_finite {m : ℕ} {e : ℤ} {hm : 0 < m} (hfit : m < 2 ^ 53) (hmin : -1074 ≤ e)
    (hnormal : 2 ^ 52 ≤ m ∨ e = -1074) :
    positive (Float.Model.pack (.finite .positive m e hm)).unpack = true := by
  rcases le_or_gt e 971 with hmax | hlarge
  · rw [unpack_pack_finite hm ⟨hfit, hmin, hmax, hnormal⟩]
    rfl
  · rw [unpack_pack_large hlarge]
    rfl

end Rounding

theorem eq_of_one_le_rank {v : UnpackedFloat} (hv : Canonical v) (hnumber : v.isNaN = false)
    (hone : rank (.finite .positive (2 ^ 52) (-52) (by decide)) ≤ rank v) :
    v = .infinity .positive ∨
      ∃ m e hm, v = .finite .positive m e hm ∧ 2 ^ 52 ≤ m ∧ -52 ≤ e := by
  rcases v with (_ | _) | _ | _ | ⟨_ | _, m, e, hm⟩ <;>
    simp only [rank, Prod.Lex.toLex_le_toLex] at hone
  case infinity.positive => exact .inl rfl
  case finite.positive =>
      have hnormal := hv.2.2.2
      exact .inr ⟨m, e, hm, rfl, by omega, by omega⟩
  all_goals omega

theorem positive_pack_mul {u v : UnpackedFloat} (hu : Canonical u) (hv : Canonical v)
    (hpos : positive u = true) (hnumber : v.isNaN = false)
    (hone : rank (.finite .positive (2 ^ 52) (-52) (by decide)) ≤ rank v) :
    positive (Float.Model.pack (UnpackedFloat.mul Format.binary64 u v)).unpack = true := by
  rcases u with (_ | _) | _ | _ | ⟨_ | _, m, e, hm⟩
  case infinity.positive =>
      have hinfinite : UnpackedFloat.mul Format.binary64 (.infinity .positive) v =
          .infinity .positive := by
        rcases eq_of_one_le_rank hv hnumber hone with rfl | ⟨m', e', hm', rfl, -⟩ <;> rfl
      rw [hinfinite]
      rfl
  case finite.positive =>
      rcases eq_of_one_le_rank hv hnumber hone with rfl | ⟨m', e', hm', rfl, hlarge, hone'⟩
      · have hinfinite : UnpackedFloat.mul Format.binary64 (.finite .positive m e hm)
            (.infinity .positive) = .infinity .positive := rfl
        rw [hinfinite]
        rfl
      · have hlong : 2 ^ 52 ≤ m * m' := hlarge.trans (Nat.le_mul_of_pos_left m' hm)
        have hlog : 52 ≤ (m * m').log2 := (Nat.le_log2 (Nat.mul_pos hm hm').ne').mpr hlong
        obtain ⟨r, t, hr, hround, hfit, hmin, hnormal⟩ :=
          exists_roundWithAccuracy_eq hlong (e := e + e') (by have := hu.2.1; omega)
        have hmul : UnpackedFloat.mul Format.binary64 (.finite .positive m e hm)
            (.finite .positive m' e' hm') = .finite .positive r t hr := hround
        rw [hmul]
        exact positive_pack_finite hfit hmin hnormal
  all_goals cases hpos

theorem one_le_max (a : Float) : 1.0 ≤ Scalar.max a 1.0 := by
  rw [Scalar.max]
  split
  next => decide
  next hlt =>
    split
    next => decide
    next hnumber =>
      exact OrderedScalar.le_of_not_lt hlt (by decide) (Bool.eq_false_iff.mpr hnumber)

theorem mul_pos_of_one_le {a b : Float} (ha : 0.0 < a) (hb : 1.0 ≤ b) : 0.0 < a * b := by
  obtain ⟨-, hnumber, hone⟩ := (le_iff _ _).mp hb
  rw [pos_iff] at ha ⊢
  exact positive_pack_mul (canonical_unpack _) (canonical_unpack _) ha hnumber hone

end LocalOptimization.Double
