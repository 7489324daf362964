import LocalOptimization.Proofs.Double.Canonical

/-!
# What rounding keeps

A rounded quotient or difference has the sign of the exact one or is zero. A quarter of a positive
double is smaller than the double, also where it loses bits.
-/

namespace LocalOptimization.Double

open Float.Model Float.Model.UnpackedFloat

section Sign

/-- The number is above zero. -/
def positive : UnpackedFloat → Bool
  | .infinity .positive | .finite .positive .. => true
  | _ => false

/-- The number is not below zero. -/
def nonnegative : UnpackedFloat → Bool
  | .infinity .positive | .finite .positive .. | .zero _ => true
  | _ => false

theorem positive_unpack {b : BitVec Format.binary64.numBits}
    (h : positive (UnpackedFloat.unpack Format.binary64 b) = true) :
    Sign.ofBitVec (unpackSign b) = .positive := by
  rw [UnpackedFloat.unpack] at h
  cases hsign : Sign.ofBitVec (unpackSign b) with
  | positive => rfl
  | negative =>
      simp only [hsign] at h
      split at h
      · split at h <;> cases h
      · split at h
        · split at h <;> cases h
        · cases h

theorem positive_of_positive_pack {u : UnpackedFloat}
    (h : positive (Float.Model.pack u).unpack = true) : positive u = true := by
  rcases u with (_ | _) | _ | (_ | _) | ⟨_ | _, m, e, hm⟩
  · cases h
  · rfl
  · cases h
  · cases h
  · cases h
  · have hsign := positive_unpack h
    simp only [Float.Model.pack, UInt64.toBitVec_ofBitVec, unpackSign_pack_finite] at hsign
    cases hsign
  · rfl

theorem nonnegative_unpack {b : BitVec Format.binary64.numBits}
    (hsign : Sign.ofBitVec (unpackSign b) = .positive)
    (hnumber : (UnpackedFloat.unpack Format.binary64 b).isNaN = false) :
    nonnegative (UnpackedFloat.unpack Format.binary64 b) = true := by
  rw [UnpackedFloat.unpack] at hnumber ⊢
  simp only [hsign] at hnumber ⊢
  split at hnumber
  · next hexponent =>
    rw [if_pos hexponent]
    split at hnumber
    · next hmantissa => rw [if_pos hmantissa]; rfl
    · cases hnumber
  · next hexponent =>
    rw [if_neg hexponent]
    split
    · split <;> rfl
    · rfl

theorem nonnegative_pack {u : UnpackedFloat} (h : nonnegative u = true) :
    nonnegative (Float.Model.pack u).unpack = true := by
  rcases u with (_ | _) | _ | (_ | _) | ⟨_ | _, m, e, hm⟩
  · cases h
  · rfl
  · cases h
  · rfl
  · rfl
  · cases h
  · apply nonnegative_unpack
    · simp only [Float.Model.pack, UInt64.toBitVec_ofBitVec, unpackSign_pack_finite]
    · rw [Bool.eq_false_iff]
      intro hnan
      cases isNaN_of_isNaN_pack hnan

theorem positive_roundWithAccuracy {spec : Format} {s : Sign} {m : ℕ} {e : ℤ} {acc : Accuracy}
    (h : positive (roundWithAccuracy spec s m e acc) = true) : s = .positive := by
  rw [roundWithAccuracy] at h
  dsimp only at h
  split at h
  · cases h
  · cases s with
    | positive => rfl
    | negative => cases h

theorem positive_round {spec : Format} {s : Sign} {m : ℕ} {e : ℤ}
    (h : positive (UnpackedFloat.round spec s m e) = true) : s = .positive :=
  positive_roundWithAccuracy h

theorem positive_normalize {spec : Format} {m : ℤ} {e : ℤ} {s : Sign}
    (h : positive (UnpackedFloat.normalize spec m e s) = true) : 0 < m := by
  rw [UnpackedFloat.normalize] at h
  split at h
  · cases positive_round h
  · cases h
  · next hm => exact compare_gt_iff_gt.mp hm

theorem positive_div {u v : UnpackedFloat}
    (h : positive (UnpackedFloat.div Format.binary64 u v) = true)
    (hv : v.le (.zero .positive) = false) : positive u = true ∧ positive v = true := by
  rcases v with (_ | _) | _ | _ | ⟨_ | _, m', e', _⟩
  · cases hv
  · rcases u with (_ | _) | _ | _ | ⟨_ | _, m, e, _⟩ <;> cases h
  · rcases u with _ | _ | _ | _ <;> cases h
  · cases hv
  · cases hv
  · rcases u with (_ | _) | _ | _ | ⟨_ | _, m, e, _⟩
    · cases h
    · exact ⟨rfl, rfl⟩
    · cases h
    · cases h
    · cases positive_roundWithAccuracy h
    · exact ⟨rfl, rfl⟩

theorem nonnegative_roundWithAccuracy {spec : Format} {m : ℕ} {e : ℤ} {acc : Accuracy} :
    nonnegative (roundWithAccuracy spec .positive m e acc) = true := by
  rw [roundWithAccuracy]
  dsimp only
  split <;> rfl

theorem nonnegative_mul {u v : UnpackedFloat} (hv : positive v = true)
    (finite_v : v.isFinite = true) (hu : nonnegative u = true) :
    nonnegative (UnpackedFloat.mul Format.binary64 v u) = true ∧
      nonnegative (UnpackedFloat.mul Format.binary64 u v) = true := by
  rcases v with (_ | _) | _ | _ | ⟨_ | _, m', e', _⟩
  · cases hv
  · cases finite_v
  · cases hv
  · cases hv
  · cases hv
  · rcases u with (_ | _) | _ | _ | ⟨_ | _, m, e, _⟩
    · cases hu
    · exact ⟨rfl, rfl⟩
    · cases hu
    · exact ⟨rfl, rfl⟩
    · cases hu
    · exact ⟨nonnegative_roundWithAccuracy, nonnegative_roundWithAccuracy⟩

end Sign

section NotANumber

theorem isNaN_roundWithAccuracy {spec : Format} {s : Sign} {m : ℕ} {e : ℤ} {acc : Accuracy} :
    (roundWithAccuracy spec s m e acc).isNaN = false := by
  rw [roundWithAccuracy]
  dsimp only
  split <;> rfl

theorem isNaN_normalize {spec : Format} {m : ℤ} {e : ℤ} {s : Sign} :
    (UnpackedFloat.normalize spec m e s).isNaN = false := by
  rw [UnpackedFloat.normalize]
  split
  · exact isNaN_roundWithAccuracy
  · rfl
  · exact isNaN_roundWithAccuracy

theorem unpacked_isNaN_sub {u v : UnpackedFloat} (hu : u.isFinite = true)
    (hv : v.isFinite = true) : (UnpackedFloat.sub Format.binary64 u v).isNaN = false := by
  rcases u with _ | _ | s | ⟨s, m, e, _⟩
  · cases hu
  · cases hu
  · rcases v with _ | _ | s' | _
    · cases hv
    · cases hv
    · cases s <;> cases s' <;> rfl
    · rfl
  · rcases v with _ | _ | _ | ⟨s', m', e', _⟩
    · cases hv
    · cases hv
    · rfl
    · exact isNaN_normalize

theorem unpacked_isNaN_div_iff {u v : UnpackedFloat} (hu : u.isNaN = false)
    (hv : v.le (.zero .positive) = false) :
    (UnpackedFloat.div Format.binary64 u v).isNaN = true ↔
      v.isNaN = true ∨ u.isInf = true ∧ v.isInf = true := by
  rcases v with (_ | _) | _ | _ | ⟨_ | _, m', e', _⟩
  · cases hv
  · rcases u with _ | _ | _ | _
    · exact ⟨fun _ => .inr ⟨rfl, rfl⟩, fun _ => rfl⟩
    · cases hu
    · exact ⟨nofun, nofun⟩
    · exact ⟨nofun, nofun⟩
  · rcases u with _ | _ | _ | _ <;> exact ⟨fun _ => .inl rfl, fun _ => rfl⟩
  · cases hv
  · cases hv
  · rcases u with _ | _ | _ | ⟨s, m, e, _⟩
    · exact ⟨nofun, nofun⟩
    · cases hu
    · exact ⟨nofun, nofun⟩
    · rw [UnpackedFloat.div, isNaN_roundWithAccuracy]
      exact ⟨nofun, nofun⟩

end NotANumber

section Difference

theorem apply_mul (s : Sign) (m k : ℕ) : s.apply (m * k : ℕ) = s.apply m * k := by
  cases s <;> simp [Sign.apply]

theorem units_eq {s : Sign} {m : ℕ} {e t : ℤ} {hm : 0 < m} (ht : -1074 ≤ t) (hte : t ≤ e) :
    units (.finite s m e hm) =
      s.apply ((decreaseExponent m e t).1 : ℕ) * 2 ^ (t + 1074).toNat := by
  have hexponent : (e + 1074).toNat = (e - t).toNat + (t + 1074).toNat := by omega
  simp only [units, decreaseExponent, Nat.shiftLeft_eq, hexponent, pow_add, ← mul_assoc]
  rw [apply_mul]
  push_cast
  rfl

theorem units_lt_of_sub {s s' : Sign} {m m' : ℕ} {e e' : ℤ} {hm : 0 < m} {hm' : 0 < m'}
    (he : -1074 ≤ e) (he' : -1074 ≤ e')
    (h : positive (UnpackedFloat.sub Format.binary64 (.finite s m e hm) (.finite s' m' e' hm')) =
      true) :
    units (.finite s' m' e' hm') < units (.finite s m e hm) := by
  have hdifference := positive_normalize h
  rw [units_eq (t := min e e') (le_min he he') (min_le_left e e'),
    units_eq (t := min e e') (le_min he he') (min_le_right e e')]
  exact mul_lt_mul_of_pos_right (sub_pos.mp hdifference) (by positivity)

theorem unpacked_lt_of_sub {u v : UnpackedFloat} (hu : Canonical u) (hv : Canonical v)
    (h : positive (UnpackedFloat.sub Format.binary64 u v) = true) : v.lt u = true := by
  rcases u with (_ | _) | _ | (_ | _) | ⟨_ | _, m, e, hm⟩ <;>
    rcases v with (_ | _) | _ | (_ | _) | ⟨_ | _, m', e', hm'⟩
  case finite.negative.finite.negative | finite.negative.finite.positive |
      finite.positive.finite.negative | finite.positive.finite.positive =>
      have hunits := units_lt_of_sub hu.2.1 hv.2.1 h
      exact (unpacked_lt_iff _ _).mpr ⟨rfl, rfl, rank_lt_of_units_lt hv hu rfl rfl hunits⟩
  all_goals cases h <;> rfl

end Difference

section Quarter

theorem shiftRight_mul (m k : ℕ) :
    (⟨m * 2 ^ k, false, false⟩ : ExtendedMantissa) >>> k = ⟨m, false, false⟩ := by
  induction k generalizing m with
  | zero => simp [HShiftRight.hShiftRight, Nat.repeat]
  | succ k ih =>
      have hk : (⟨m * 2 ^ (k + 1), false, false⟩ : ExtendedMantissa) >>> k =
          ⟨m * 2, false, false⟩ := by
        rw [← ih (m * 2), pow_succ']
        simp only [mul_assoc]
      change ExtendedMantissa.shiftRightOne ((_ : ExtendedMantissa) >>> k) = _
      rw [hk]
      simp [ExtendedMantissa.shiftRightOne]

theorem roundWithAccuracy_eq {s : Sign} {m r : ℕ} {e t : ℤ}
    (ht : Format.binary64.targetExponent (totalExponent m e) = t) (het : e ≤ t)
    (hr : ((⟨m, false, false⟩ : ExtendedMantissa) >>> (t - e).toNat).roundedMantissa = r)
    (hfit : r < 2 ^ 53) :
    roundWithAccuracy Format.binary64 s m e .exact =
      if h : r = 0 then .zero s else .finite s r t (Nat.pos_of_ne_zero h) := by
  have hexponent : e + (t - e).toNat = t := by omega
  have hmin : -1074 ≤ t := ht ▸ le_max_right _ _
  have hlog := log2_le_of_lt hfit
  have hshift : (Format.binary64.targetExponent (totalExponent r t) - t).toNat = 0 := by
    simp only [Format.targetExponent, Format.minExponent, Format.mantissaBits, totalExponent]
    omega
  simp only [roundWithAccuracy, shiftToTargetExponent, shiftToExponent, ht,
    ExtendedMantissa.ofMantissaAndAccuracy, hr, hexponent, hshift]
  simp [HShiftRight.hShiftRight, Nat.repeat]

theorem targetExponent_eq {m : ℕ} {e : ℤ} :
    Format.binary64.targetExponent (totalExponent m e) = max (m.log2 + e - 52) (-1074) := by
  simp only [Format.targetExponent, Format.minExponent, Format.mantissaBits, totalExponent]
  congr 1
  omega

theorem log2_mul_pow {m : ℕ} (hm : 0 < m) (k : ℕ) : (m * 2 ^ k).log2 = m.log2 + k := by
  induction k with
  | zero => simp
  | succ k ih =>
      rw [pow_succ', mul_left_comm, Nat.log2_two_mul (Nat.mul_pos hm (Nat.two_pow_pos k)).ne', ih]
      rfl

theorem roundedMantissa_le (em : ExtendedMantissa) : em.roundedMantissa ≤ em.mantissa + 1 := by
  rcases em with ⟨m, _ | _, _ | _⟩ <;>
    simp only [ExtendedMantissa.roundedMantissa, ExtendedMantissa.accuracy,
      Accuracy.roundToNearestEven] <;> omega

theorem roundedMantissa_quarter_lt {m : ℕ} (hm : 0 < m) :
    (⟨m, false, false⟩ : ExtendedMantissa).shiftRightOne.shiftRightOne.roundedMantissa < m := by
  rcases Nat.lt_or_ge m 2 with hone | htwo
  · obtain rfl : m = 1 := by omega
    decide
  · apply Nat.lt_of_le_of_lt (roundedMantissa_le _)
    simp only [ExtendedMantissa.shiftRightOne]
    omega

theorem quarter_cases {m : ℕ} {e : ℤ} {hm : 0 < m} (hc : Canonical (.finite .positive m e hm)) :
    ∃ r t, Format.binary64.targetExponent (totalExponent (m * 2 ^ 52) (e - 54)) = t ∧ e - 54 ≤ t ∧
      ((⟨m * 2 ^ 52, false, false⟩ : ExtendedMantissa) >>> (t - (e - 54)).toNat).roundedMantissa =
        r ∧ r ≤ m ∧ -1074 ≤ t ∧ (2 ^ 52 ≤ r ∨ t = -1074) ∧ (t < e ∨ t = e ∧ r < m) := by
  obtain ⟨hfit, hmin, hmax, hnormal⟩ := hc
  have hlog : (m * 2 ^ 52).log2 = m.log2 + 52 := log2_mul_pow hm 52
  have hupper := log2_le_of_lt hfit
  have hlower : 2 ^ 52 ≤ m → 52 ≤ m.log2 := (Nat.le_log2 hm.ne').mpr
  have hexact := shiftRight_mul m 52
  rw [targetExponent_eq, hlog]
  rcases le_or_gt (-1072) e with hlarge | hsmall
  · have ht : max (((m.log2 + 52 : ℕ) : ℤ) + (e - 54) - 52) (-1074) = e - 2 := by omega
    have hshift : (e - 2 - (e - 54)).toNat = 52 := by omega
    refine ⟨m, e - 2, ht, by omega, ?_, le_rfl, by omega, by omega, .inl (by omega)⟩
    rw [hshift, hexact]
    rfl
  · have ht : max (((m.log2 + 52 : ℕ) : ℤ) + (e - 54) - 52) (-1074) = -1074 := by omega
    rcases eq_or_lt_of_le hmin with rfl | hgt
    · have hshift : (-1074 - (-1074 - 54) : ℤ).toNat = 54 := by omega
      have hquarter := roundedMantissa_quarter_lt hm
      rw [← hexact] at hquarter
      refine ⟨_, -1074, ht, by omega, rfl, ?_, le_rfl, .inr rfl, .inr ⟨rfl, ?_⟩⟩
      · rw [hshift]
        exact Nat.le_of_lt hquarter
      · rw [hshift]
        exact hquarter
    · obtain rfl : e = -1073 := by omega
      have hshift : (-1074 - (-1073 - 54) : ℤ).toNat = 53 := by omega
      have hhalf := roundedMantissa_le (⟨m, false, false⟩ : ExtendedMantissa).shiftRightOne
      rw [← hexact] at hhalf
      refine ⟨_, -1074, ht, by omega, rfl, ?_, le_rfl, .inr rfl, .inl (by omega)⟩
      rw [hshift]
      apply Nat.le_trans hhalf
      rw [hexact]
      simp only [ExtendedMantissa.shiftRightOne]
      omega

theorem rank_quarter_lt {m : ℕ} {e : ℤ} {hm : 0 < m} (hc : Canonical (.finite .positive m e hm)) :
    rank (Float.Model.pack (UnpackedFloat.mul Format.binary64 (.finite .positive m e hm)
      (.finite .positive (2 ^ 52) (-54) (by decide)))).unpack <
      rank (.finite .positive m e hm) := by
  obtain ⟨r, t, ht, het, hr, hrm, hmin, hnormal, hless⟩ := quarter_cases hc
  have hfit : r < 2 ^ 53 := Nat.lt_of_le_of_lt hrm hc.1
  have hround : UnpackedFloat.mul Format.binary64 (.finite .positive m e hm)
      (.finite .positive (2 ^ 52) (-54) (by decide)) =
      if h : r = 0 then .zero .positive else .finite .positive r t (Nat.pos_of_ne_zero h) :=
    roundWithAccuracy_eq ht het hr hfit
  rw [hround]
  split
  · exact Prod.Lex.toLex_lt_toLex.mpr (.inl Int.zero_lt_one)
  · next hzero =>
    rw [unpack_pack_finite _ ⟨hfit, hmin, by have := hc.2.2.1; omega, hnormal⟩]
    simp only [rank, Prod.Lex.toLex_lt_toLex, true_and]
    omega

theorem unpacked_mul_quarter_lt {u : UnpackedFloat} (hc : Canonical u) (hu : positive u = true)
    (finite_u : u.isFinite = true) :
    (Float.Model.pack (UnpackedFloat.mul Format.binary64 u
      (.finite .positive (2 ^ 52) (-54) (by decide)))).unpack.lt u = true := by
  rcases u with (_ | _) | _ | _ | ⟨_ | _, m, e, hm⟩
  · cases hu
  · cases finite_u
  · cases hu
  · cases hu
  · cases hu
  · refine (unpacked_lt_iff _ _).mpr ⟨?_, rfl, rank_quarter_lt hc⟩
    exact (isNaN_pack _).trans isNaN_roundWithAccuracy

theorem unpacked_mul_quarter_le {u : UnpackedFloat} (hc : Canonical u)
    (hu : nonnegative u = true) :
    (Float.Model.pack (UnpackedFloat.mul Format.binary64 u
      (.finite .positive (2 ^ 52) (-54) (by decide)))).unpack.le u = true := by
  rcases u with (_ | _) | _ | (_ | _) | ⟨_ | _, m, e, hm⟩
  · cases hu
  · rfl
  · cases hu
  · rfl
  · rfl
  · cases hu
  · have hlt := (unpacked_lt_iff _ _).mp (unpacked_mul_quarter_lt hc rfl rfl)
    exact (unpacked_le_iff _ _).mpr ⟨hlt.1, hlt.2.1, le_of_lt hlt.2.2⟩

end Quarter

section Doubles

theorem unpack_zero : (0.0 : Float).toModel.unpack = .zero .positive := by
  rfl

theorem pos_iff (a : Float) : 0.0 < a ↔ positive a.toModel.unpack = true := by
  have hdecide : 0.0 < a ↔ (0.0 : Float).toModel.unpack.lt a.toModel.unpack = true :=
    decide_eq_true_iff
  rw [hdecide, unpack_zero]
  rcases a.toModel.unpack with (_ | _) | _ | _ | ⟨_ | _, m, e, _⟩ <;> exact Iff.rfl

theorem nonneg_iff (a : Float) : 0.0 ≤ a ↔ nonnegative a.toModel.unpack = true := by
  have hdecide : 0.0 ≤ a ↔ (0.0 : Float).toModel.unpack.le a.toModel.unpack = true :=
    decide_eq_true_iff
  rw [hdecide, unpack_zero]
  rcases a.toModel.unpack with (_ | _) | _ | _ | ⟨_ | _, m, e, _⟩ <;> exact Iff.rfl

theorem unpacked_isFinite_of_le {u v : UnpackedFloat} (hu : nonnegative u = true)
    (h : rank u ≤ rank v) (hv : v.isFinite = true) : u.isFinite = true := by
  cases u with
  | infinity s =>
      cases s with
      | negative => cases hu
      | positive =>
          rcases v with _ | _ | _ | ⟨_ | _, m, e, _⟩ <;>
            simp_all [rank, UnpackedFloat.isFinite, Prod.Lex.toLex_le_toLex]
  | notANumber => cases hu
  | zero s => rfl
  | finite s m e hm => rfl

theorem isFinite_of_le {a b : Float} (ha : 0.0 ≤ a) (hab : a ≤ b) (hb : b.isFinite = true) :
    a.isFinite = true :=
  unpacked_isFinite_of_le ((nonneg_iff a).mp ha) ((le_iff a b).mp hab).2.2 hb

theorem pos_of_div_pos {a b : Float} (h : 0.0 < a / b) (hb : ¬ b ≤ 0.0) : 0.0 < a ∧ 0.0 < b := by
  have hpositive := positive_of_positive_pack ((pos_iff _).mp h)
  rw [pos_iff, pos_iff]
  apply positive_div hpositive
  exact Bool.eq_false_iff.mpr fun hle => hb (decide_eq_true_iff.mpr hle)

theorem lt_of_sub_pos {a b : Float} (h : 0.0 < a - b) : b < a := by
  apply decide_eq_true_iff.mpr
  exact unpacked_lt_of_sub (canonical_unpack _) (canonical_unpack _)
    (positive_of_positive_pack ((pos_iff _).mp h))

theorem nonneg_double {a : Float} (h : 0.0 ≤ a) : 0.0 ≤ 2.0 * a := by
  rw [nonneg_iff] at h ⊢
  exact nonnegative_pack (nonnegative_mul (v := (2.0 : Float).toModel.unpack) rfl rfl h).1

theorem nonneg_quarter {a : Float} (h : 0.0 ≤ a) : 0.0 ≤ a * 0.25 := by
  rw [nonneg_iff] at h ⊢
  exact nonnegative_pack (nonnegative_mul (v := (0.25 : Float).toModel.unpack) rfl rfl h).2

theorem mul_quarter_lt {a : Float} (h : 0.0 < a) (hfinite : a.isFinite = true) : a * 0.25 < a := by
  apply decide_eq_true_iff.mpr
  exact unpacked_mul_quarter_lt (canonical_unpack _) ((pos_iff a).mp h) hfinite

theorem mul_quarter_le {a : Float} (h : 0.0 ≤ a) : a * 0.25 ≤ a := by
  apply decide_eq_true_iff.mpr
  exact unpacked_mul_quarter_le (canonical_unpack _) ((nonneg_iff a).mp h)

theorem isNaN_sub {a b : Float} (ha : a.isFinite = true) (hb : b.isFinite = true) :
    (a - b).isNaN = false := by
  have hsub : (a - b).isNaN =
      (UnpackedFloat.sub Format.binary64 a.toModel.unpack b.toModel.unpack).isNaN := isNaN_pack _
  rw [hsub]
  exact unpacked_isNaN_sub ha hb

theorem isNaN_div_iff {a b : Float} (ha : a.isNaN = false) (hb : ¬ b ≤ 0.0) :
    (a / b).isNaN = true ↔ b.isNaN = true ∨ a.isInf = true ∧ b.isInf = true := by
  have hdiv : (a / b).isNaN =
      (UnpackedFloat.div Format.binary64 a.toModel.unpack b.toModel.unpack).isNaN := isNaN_pack _
  rw [hdiv]
  apply unpacked_isNaN_div_iff ha
  exact Bool.eq_false_iff.mpr fun hle => hb (decide_eq_true_iff.mpr hle)

end Doubles

end LocalOptimization.Double
