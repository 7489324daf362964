import LocalOptimization.Proofs.Double.Product

/-!
# Differences that do not rise

Rounding keeps to the side of a double on which the exact number lies. So taking a number that is
not negative from a finite double leads to no larger double, and taking zero from it changes
nothing.
-/

namespace LocalOptimization.Double

open Float.Model Float.Model.UnpackedFloat

section Order

theorem mul_pow_lt_of_lex_lt {l m : ℕ} {d e : ℤ} (hl : l < 2 ^ 53) (hd : -1074 ≤ d)
    (hm : 2 ^ 52 ≤ m ∨ e = -1074) (h : d < e ∨ d = e ∧ l < m) :
    l * 2 ^ (d + 1074).toNat < m * 2 ^ (e + 1074).toNat := by
  rcases h with hlt | ⟨rfl, hlt⟩
  · have hnormal : 2 ^ 52 ≤ m := hm.resolve_right (by omega)
    calc
      l * 2 ^ (d + 1074).toNat < 2 ^ 53 * 2 ^ (d + 1074).toNat :=
        Nat.mul_lt_mul_of_pos_right hl (Nat.two_pow_pos _)
      _ = 2 ^ 52 * 2 ^ ((d + 1074).toNat + 1) := by ring
      _ ≤ m * 2 ^ (e + 1074).toNat := by
        apply Nat.mul_le_mul hnormal
        exact Nat.pow_le_pow_right (by decide) (by omega)
  · exact Nat.mul_lt_mul_of_pos_right hlt (Nat.two_pow_pos _)

theorem units_lt_of_rank_lt {u v : UnpackedFloat} (hu : Canonical u) (hv : Canonical v)
    (finite_u : u.isFinite = true) (finite_v : v.isFinite = true) (h : rank u < rank v) :
    units u < units v := by
  rcases u with _ | _ | _ | ⟨_ | _, m, e, hm⟩ <;>
    rcases v with _ | _ | _ | ⟨_ | _, m', e', hm'⟩ <;>
    simp only [UnpackedFloat.isFinite, Bool.false_eq_true] at finite_u finite_v <;>
    simp only [units, Sign.apply, rank, Prod.Lex.toLex_lt_toLex, true_and] at h ⊢
  case finite.negative.finite.negative =>
      have hlt := mul_pow_lt_of_lex_lt hv.1 hv.2.1 hu.2.2.2 (d := e') (e := e) (by omega)
      omega
  case finite.positive.finite.positive =>
      have hlt := mul_pow_lt_of_lex_lt hu.1 hu.2.1 hv.2.2.2 (d := e) (e := e') (by omega)
      omega
  case finite.negative.zero =>
      have hpos := Nat.mul_pos hm (Nat.two_pow_pos (e + 1074).toNat)
      omega
  case zero.finite.positive =>
      have hpos := Nat.mul_pos hm' (Nat.two_pow_pos (e' + 1074).toNat)
      omega
  case finite.negative.finite.positive =>
      have hpos := Nat.mul_pos hm (Nat.two_pow_pos (e + 1074).toNat)
      have hpos' := Nat.mul_pos hm' (Nat.two_pow_pos (e' + 1074).toNat)
      omega
  all_goals omega

theorem rank_le_of_units_le {u v : UnpackedFloat} (hu : Canonical u) (hv : Canonical v)
    (finite_u : u.isFinite = true) (finite_v : v.isFinite = true) (h : units u ≤ units v) :
    rank u ≤ rank v := by
  apply le_of_not_gt
  intro hlt
  exact absurd (units_lt_of_rank_lt hv hu finite_v finite_u hlt) (not_lt.mpr h)

end Order

section Rounding

theorem roundedMantissa_le_of_le_mul {m k b : ℕ} (h : m ≤ b * 2 ^ k) :
    ((⟨m, false, false⟩ : ExtendedMantissa) >>> k).roundedMantissa ≤ b := by
  by_cases hexact : 2 ^ k ∣ m
  · obtain ⟨q, rfl⟩ := hexact
    rw [mul_comm, shiftRight_mul]
    rw [mul_comm] at h
    exact Nat.le_of_mul_le_mul_right h (Nat.two_pow_pos k)
  · have hrounded := roundedMantissa_le ((⟨m, false, false⟩ : ExtendedMantissa) >>> k)
    have hlt : m < b * 2 ^ k := lt_of_le_of_ne h fun heq => hexact (heq ▸ Nat.dvd_mul_left _ _)
    rw [mantissa_shiftRight] at hrounded
    exact hrounded.trans ((Nat.div_lt_iff_lt_mul (Nat.two_pow_pos k)).mpr hlt)

theorem le_roundedMantissa_of_mul_le {m k b : ℕ} (h : b * 2 ^ k ≤ m) :
    b ≤ ((⟨m, false, false⟩ : ExtendedMantissa) >>> k).roundedMantissa := by
  have hrounded := le_roundedMantissa ((⟨m, false, false⟩ : ExtendedMantissa) >>> k)
  rw [mantissa_shiftRight] at hrounded
  exact ((Nat.le_div_iff_mul_le (Nat.two_pow_pos k)).mpr h).trans hrounded

/-- `r` units of the place `2 ^ t` lie on the same side of every double as `m` units of the place
`2 ^ e`. -/
def KeepsSides (m a r b : ℕ) : Prop :=
  ∀ m' c, m' < 2 ^ 53 →
    (m * 2 ^ a ≤ m' * 2 ^ c → r * 2 ^ b ≤ m' * 2 ^ c) ∧
      (m' * 2 ^ c ≤ m * 2 ^ a → m' * 2 ^ c ≤ r * 2 ^ b)

/-- Rounding to a mantissa of full length keeps to the side of every double. -/
theorem keepsSides_roundedMantissa {m a k : ℕ} (hlong : 2 ^ 52 * 2 ^ k ≤ m) :
    KeepsSides m a ((⟨m, false, false⟩ : ExtendedMantissa) >>> k).roundedMantissa (a + k) := by
  intro m' c hm'
  have hplace : ∀ d, m' * 2 ^ (a + k + d) = m' * 2 ^ d * 2 ^ (a + k) := fun d => by ring
  have hplaces : ∀ q, q * 2 ^ (a + k) = q * 2 ^ k * 2 ^ a := fun q => by ring
  have hbelow : c < a + k → m' * 2 ^ c < 2 ^ 52 * 2 ^ (a + k) := by
    intro hc
    calc
      m' * 2 ^ c < 2 ^ 53 * 2 ^ c := Nat.mul_lt_mul_of_pos_right hm' (Nat.two_pow_pos c)
      _ = 2 ^ 52 * 2 ^ (c + 1) := by ring
      _ ≤ 2 ^ 52 * 2 ^ (a + k) := Nat.mul_le_mul_left _ (Nat.pow_le_pow_right (by decide) hc)
  constructor
  · intro h
    have hc : a + k ≤ c := by
      by_contra hc
      have hlow := hbelow (by omega)
      have hhigh := Nat.mul_le_mul_right (2 ^ a) hlong
      rw [← hplaces] at hhigh
      omega
    obtain ⟨d, rfl⟩ := Nat.exists_eq_add_of_le hc
    rw [hplace] at h ⊢
    rw [hplaces] at h
    apply Nat.mul_le_mul_right
    exact roundedMantissa_le_of_le_mul (Nat.le_of_mul_le_mul_right h (Nat.two_pow_pos a))
  · intro h
    rcases Nat.lt_or_ge c (a + k) with hc | hc
    · apply (hbelow hc).le.trans
      exact Nat.mul_le_mul_right _ (le_roundedMantissa_of_mul_le hlong)
    · obtain ⟨d, rfl⟩ := Nat.exists_eq_add_of_le hc
      rw [hplace] at h ⊢
      rw [hplaces] at h
      apply Nat.mul_le_mul_right
      exact le_roundedMantissa_of_mul_le (Nat.le_of_mul_le_mul_right h (Nat.two_pow_pos a))

/-- The form in which a rounded number comes: canonical, but for its greatest exponent. -/
structure Rounded (m : ℕ) (e : ℤ) (r : ℕ) (t : ℤ) : Prop where
  fits : r < 2 ^ 53
  least : -1074 ≤ t
  normal : 2 ^ 52 ≤ r ∨ t = -1074
  keepsSides : KeepsSides m (e + 1074).toNat r (t + 1074).toNat

theorem exists_round_of_short {s : Sign} {m : ℕ} {e t : ℤ} (hm : 0 < m) (he : -1074 ≤ e)
    (ht : max (m.log2 + e - 52) (-1074) = t) (hte : t ≤ e) :
    ∃ r, ∃ hr : 0 < r, UnpackedFloat.round Format.binary64 s m e = .finite s r t hr ∧
      Rounded m e r t := by
  obtain ⟨k, hk⟩ : ∃ k : ℕ, (k : ℤ) = e - t := ⟨(e - t).toNat, by omega⟩
  have hr : 0 < m * 2 ^ k := Nat.mul_pos hm (Nat.two_pow_pos k)
  have hlog : (m * 2 ^ k).log2 = m.log2 + k := log2_mul_pow hm k
  have hfit : m * 2 ^ k < 2 ^ 53 := (Nat.log2_lt hr.ne').mp (by omega)
  have htarget : Format.binary64.targetExponent (totalExponent (m * 2 ^ k) t) = t := by
    rw [targetExponent_eq, hlog]
    omega
  refine ⟨m * 2 ^ k, hr, ?_, hfit, by omega, ?_, ?_⟩
  · have hround : UnpackedFloat.round Format.binary64 s m e =
        roundWithAccuracy Format.binary64 s (m * 2 ^ k) t .exact := by
      have hexponent : e - k = t := by omega
      simp only [UnpackedFloat.round, decreaseExponent, targetExponent_eq, ht, Nat.shiftLeft_eq,
        ← hk, Int.toNat_natCast, hexponent]
    rw [hround, roundWithAccuracy_eq htarget le_rfl (r := m * 2 ^ k) (by simp; rfl) hfit,
      dif_neg hr.ne']
  · rcases le_or_gt (m.log2 + e - 52) (-1074) with hsubnormal | hnormal
    · exact .inr (by omega)
    · exact .inl ((Nat.le_log2 hr.ne').mp (by omega))
  · have hplace : m * 2 ^ (e + 1074).toNat = m * 2 ^ k * 2 ^ (t + 1074).toNat := by
      rw [mul_assoc, ← pow_add]
      congr 2
      omega
    intro m' c _
    rw [hplace]
    exact ⟨id, id⟩

theorem exists_round_of_long {s : Sign} {m : ℕ} {e t : ℤ} (hm : 0 < m) (he : -1074 ≤ e)
    (ht : max (m.log2 + e - 52) (-1074) = t) (het : e < t) :
    ∃ r t', ∃ hr : 0 < r, UnpackedFloat.round Format.binary64 s m e = .finite s r t' hr ∧
      Rounded m e r t' := by
  obtain ⟨k, hk⟩ : ∃ k : ℕ, (k : ℤ) = t - e := ⟨(t - e).toNat, by omega⟩
  have hlog : m.log2 = 52 + k := by omega
  have hlong : 2 ^ 52 * 2 ^ k ≤ m := by
    rw [← pow_add]
    exact (Nat.le_log2 hm.ne').mp hlog.ge
  have hshort : m ≤ 2 ^ 53 * 2 ^ k := by
    rw [← pow_add]
    exact ((Nat.log2_lt hm.ne').mp (by omega)).le
  have htarget : Format.binary64.targetExponent (totalExponent m e) = t :=
    targetExponent_eq.trans ht
  have hround : UnpackedFloat.round Format.binary64 s m e =
      roundWithAccuracy Format.binary64 s m e .exact := by
    have hshift : (e - t).toNat = 0 := by omega
    simp only [UnpackedFloat.round, decreaseExponent, htarget, hshift]
    simp
  have hsides := keepsSides_roundedMantissa (a := (e + 1074).toNat) hlong
  have hplace : (t + 1074).toNat = (e + 1074).toNat + k := by omega
  have hlower := le_roundedMantissa_of_mul_le hlong
  have hupper := roundedMantissa_le_of_le_mul hshort
  have hr : ((⟨m, false, false⟩ : ExtendedMantissa) >>> (t - e).toNat).roundedMantissa =
      ((⟨m, false, false⟩ : ExtendedMantissa) >>> k).roundedMantissa := by
    rw [← hk, Int.toNat_natCast]
  generalize ((⟨m, false, false⟩ : ExtendedMantissa) >>> k).roundedMantissa = r at *
  rcases Nat.lt_or_ge r (2 ^ 53) with hfit | hover
  · refine ⟨r, t, by omega, ?_, hfit, by omega, .inl hlower, hplace ▸ hsides⟩
    rw [hround, roundWithAccuracy_eq htarget het.le hr hfit, dif_neg (by omega)]
  · obtain rfl : r = 2 ^ 53 := by omega
    refine ⟨2 ^ 52, t + 1, by decide, ?_, by decide, by omega, .inl le_rfl, ?_⟩
    · rw [hround, roundWithAccuracy_of_carry htarget het.le hr]
    · have hcarry : 2 ^ 52 * 2 ^ (t + 1 + 1074).toNat = 2 ^ 53 * 2 ^ ((e + 1074).toNat + k) := by
        rw [← pow_add, ← pow_add]
        congr 1
        omega
      intro m' c hm'
      rw [hcarry]
      exact hsides m' c hm'

theorem exists_round_eq (s : Sign) {m : ℕ} {e : ℤ} (hm : 0 < m) (he : -1074 ≤ e) :
    ∃ r t, ∃ hr : 0 < r, UnpackedFloat.round Format.binary64 s m e = .finite s r t hr ∧
      Rounded m e r t := by
  obtain ⟨t, ht⟩ : ∃ t, max (m.log2 + e - 52) (-1074) = t := ⟨_, rfl⟩
  rcases le_or_gt t e with hte | het
  · obtain ⟨r, h⟩ := exists_round_of_short hm he ht hte
    exact ⟨r, t, h⟩
  · exact exists_round_of_long hm he ht het

end Rounding

section Difference

theorem rank_infinity_negative_le (u : UnpackedFloat) : rank (.infinity .negative) ≤ rank u := by
  rcases u with (_ | _) | _ | _ | ⟨_ | _, m, e, hm⟩ <;> simp [rank, Prod.Lex.toLex_le_toLex]

theorem rank_pack_le {s : Sign} {m r : ℕ} {e t : ℤ} {hr : 0 < r} {u : UnpackedFloat}
    (rounded : Rounded m e r t) (hu : Canonical u) (finite_u : u.isFinite = true)
    (h : units (.finite s r t hr) ≤ units u) :
    rank (Float.Model.pack (.finite s r t hr)).unpack ≤ rank u := by
  rcases le_or_gt t 971 with hsmall | hlarge
  · have hc : Canonical (.finite s r t hr) :=
      ⟨rounded.fits, rounded.least, hsmall, rounded.normal⟩
    rw [unpack_pack_finite hr hc]
    exact rank_le_of_units_le hc hu rfl finite_u h
  · rw [unpack_pack_large hlarge]
    cases s with
    | negative => exact rank_infinity_negative_le u
    | positive =>
        exfalso
        rcases u with _ | _ | _ | ⟨_ | _, m', e', hm'⟩ <;>
          simp only [UnpackedFloat.isFinite, Bool.false_eq_true] at finite_u <;>
          simp only [units, Sign.apply] at h
        case zero =>
            have hpos := Nat.mul_pos hr (Nat.two_pow_pos (t + 1074).toNat)
            omega
        case finite.negative =>
            have hpos := Nat.mul_pos hr (Nat.two_pow_pos (t + 1074).toNat)
            omega
        case finite.positive =>
            have hlt := mul_pow_lt_of_lex_lt hu.1 hu.2.1 rounded.normal
              (.inl (hu.2.2.1.trans_lt hlarge))
            omega

theorem exists_units_eq {u : UnpackedFloat} (hu : Canonical u) (finite_u : u.isFinite = true) :
    ∃ m c : ℕ, m < 2 ^ 53 ∧ (units u = (m * 2 ^ c : ℕ) ∨ units u = -(m * 2 ^ c : ℕ)) := by
  rcases u with _ | _ | _ | ⟨_ | _, m, e, hm⟩
  · cases finite_u
  · cases finite_u
  · exact ⟨0, 0, by decide, .inl rfl⟩
  · exact ⟨m, _, hu.1, .inr rfl⟩
  · exact ⟨m, _, hu.1, .inl rfl⟩

theorem rank_pack_normalize_le {m e : ℤ} {u : UnpackedFloat} (he : -1074 ≤ e) (hu : Canonical u)
    (finite_u : u.isFinite = true) (h : m * 2 ^ (e + 1074).toNat ≤ units u) :
    rank (Float.Model.pack (UnpackedFloat.normalize Format.binary64 m e .positive)).unpack ≤
      rank u := by
  obtain ⟨m', c, hfit, hunits⟩ := exists_units_eq hu finite_u
  rcases lt_trichotomy m 0 with hneg | rfl | hpos
  · obtain ⟨k, rfl⟩ : ∃ k : ℕ, m = -k := ⟨(-m).toNat, by omega⟩
    obtain ⟨r, t, hr, hround, rounded⟩ := exists_round_eq .negative (m := k) (by omega) he
    have hnormalize : UnpackedFloat.normalize Format.binary64 (-k) e .positive =
        .finite .negative r t hr := by
      rw [UnpackedFloat.normalize, compare_lt_iff_lt.mpr hneg]
      simpa using hround
    rw [hnormalize]
    apply rank_pack_le rounded hu finite_u
    change -((r * 2 ^ (t + 1074).toNat : ℕ) : ℤ) ≤ units u
    rcases hunits with hunits | hunits
    · omega
    · have hle : m' * 2 ^ c ≤ k * 2 ^ (e + 1074).toNat := by
        rw [hunits, neg_mul, neg_le_neg_iff] at h
        exact_mod_cast h
      have hkeeps := (rounded.keepsSides m' c hfit).2 hle
      omega
  · have hnormalize : UnpackedFloat.normalize Format.binary64 0 e .positive = .zero .positive := by
      rw [UnpackedFloat.normalize]
      rfl
    have hunpack : (Float.Model.pack (.zero .positive)).unpack = .zero .positive := rfl
    rw [hnormalize, hunpack]
    rw [zero_mul] at h
    exact rank_le_of_units_le trivial hu rfl finite_u h
  · obtain ⟨k, rfl⟩ : ∃ k : ℕ, m = k := ⟨m.toNat, by omega⟩
    obtain ⟨r, t, hr, hround, rounded⟩ := exists_round_eq .positive (m := k) (by omega) he
    have hnormalize : UnpackedFloat.normalize Format.binary64 k e .positive =
        .finite .positive r t hr := by
      rw [UnpackedFloat.normalize, compare_gt_iff_gt.mpr hpos]
      simpa using hround
    rw [hnormalize]
    apply rank_pack_le rounded hu finite_u
    change ((r * 2 ^ (t + 1074).toNat : ℕ) : ℤ) ≤ units u
    have hplace : (0 : ℤ) < k * 2 ^ (e + 1074).toNat := by positivity
    rcases hunits with hunits | hunits
    · have hle : k * 2 ^ (e + 1074).toNat ≤ m' * 2 ^ c := by
        rw [hunits] at h
        exact_mod_cast h
      have hkeeps := (rounded.keepsSides m' c hfit).1 hle
      omega
    · omega

theorem rank_sub_zero {u : UnpackedFloat} (hu : Canonical u) (finite_u : u.isFinite = true)
    (s : Sign) :
    rank (Float.Model.pack (UnpackedFloat.sub Format.binary64 u (.zero s))).unpack = rank u := by
  rcases u with _ | _ | s' | ⟨s', m, e, hm⟩
  · cases finite_u
  · cases finite_u
  · cases s <;> cases s' <;> exact Eq.refl (rank (.zero .positive))
  · exact congrArg rank (unpack_pack_finite hm hu)

theorem rank_sub_le {u v : UnpackedFloat} (hu : Canonical u) (hv : Canonical v)
    (finite_u : u.isFinite = true) (nonneg_v : nonnegative v = true) :
    rank (Float.Model.pack (UnpackedFloat.sub Format.binary64 u v)).unpack ≤ rank u := by
  rcases v with (_ | _) | _ | s' | ⟨_ | _, m', e', hm'⟩
  case infinity.positive =>
      have hunpack : (Float.Model.pack (.infinity .negative)).unpack = .infinity .negative := rfl
      have hsub : UnpackedFloat.sub Format.binary64 u (.infinity .positive) =
          .infinity .negative := by
        cases u <;> cases finite_u <;> rfl
      rw [hsub, hunpack]
      exact rank_infinity_negative_le u
  case zero => exact (rank_sub_zero hu finite_u s').le
  case finite.positive =>
      rcases u with _ | _ | s | ⟨s, m, e, hm⟩
      · cases finite_u
      · cases finite_u
      · have hsub : UnpackedFloat.sub Format.binary64 (.zero s) (.finite .positive m' e' hm') =
            .finite .negative m' e' hm' := rfl
        have hc : Canonical (.finite .negative m' e' hm') := hv
        rw [hsub, unpack_pack_finite hm' hc]
        simp [rank, Prod.Lex.toLex_le_toLex]
      · apply rank_pack_normalize_le (le_min hu.2.1 hv.2.1) hu finite_u
        rw [units_eq (t := min e e') (le_min hu.2.1 hv.2.1) (min_le_left e e')]
        apply mul_le_mul_of_nonneg_right _ (by positivity)
        exact sub_le_self _ (Int.natCast_nonneg _)
  all_goals cases nonneg_v

end Difference

section Doubles

theorem lt_of_lt_sub {a t x : Float} (ha : a.isFinite = true) (ht : 0.0 ≤ t) (h : x < a - t) :
    x < a := by
  rw [lt_iff] at h ⊢
  have hle := rank_sub_le (canonical_unpack a.toModel) (canonical_unpack t.toModel) ha
    ((nonneg_iff t).mp ht)
  exact ⟨h.1, isNaN_of_isFinite ha, h.2.2.trans_le hle⟩

theorem lt_sub_iff_of_zero {a t x : Float} (ha : a.isFinite = true) (ht : 0.0 ≤ t)
    (ht' : t ≤ 0.0) : x < a - t ↔ x < a := by
  obtain ⟨s, hs⟩ : ∃ s, t.toModel.unpack = .zero s := by
    have hnonneg := (nonneg_iff t).mp ht
    have hnonpos : t.toModel.unpack.le (0.0 : Float).toModel.unpack = true :=
      decide_eq_true_iff.mp ht'
    rw [unpack_zero] at hnonpos
    generalize t.toModel.unpack = v at hnonneg hnonpos
    rcases v with (_ | _) | _ | s | ⟨_ | _, m, e, hm⟩
    case zero => exact ⟨s, rfl⟩
    case infinity.negative | notANumber | finite.negative => cases hnonneg
    case infinity.positive | finite.positive => cases hnonpos
  have hfinite : t.isFinite = true := by
    change t.toModel.unpack.isFinite = true
    rw [hs]
    rfl
  have hrank : rank (a - t).toModel.unpack = rank a.toModel.unpack := by
    have hsub := rank_sub_zero (canonical_unpack a.toModel) ha s
    rwa [← hs] at hsub
  rw [lt_iff, lt_iff, hrank, isNaN_sub ha hfinite, isNaN_of_isFinite ha]

end Doubles

end LocalOptimization.Double
