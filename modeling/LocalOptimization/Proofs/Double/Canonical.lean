import LocalOptimization.Proofs.Double

/-!
# The canonical form of doubles

Doubles unpack in a canonical form, in which the rank is the order of the numbers themselves. A
number in canonical form unpacks as it was packed.
-/

namespace LocalOptimization.Double

open Float.Model Float.Model.UnpackedFloat

/-- The form in which doubles unpack: the mantissa has 53 bits, and the first of them is set unless
the exponent is the least one. -/
def Canonical : UnpackedFloat → Prop
  | .finite _ m e _ => m < 2 ^ 53 ∧ -1074 ≤ e ∧ e ≤ 971 ∧ (2 ^ 52 ≤ m ∨ e = -1074)
  | _ => True

theorem toNat_one_append (m : BitVec 52) : (1#1 ++ m).toNat = 2 ^ 52 + m.toNat := by
  rw [BitVec.toNat_append, ← Nat.shiftLeft_add_eq_or_of_lt m.isLt]
  rfl

theorem canonical_unpack (a : Float.Model) : Canonical a.unpack := by
  simp only [Float.Model.unpack, UnpackedFloat.unpack]
  split
  · split <;> trivial
  · next hinfinite =>
    split
    · split
      · trivial
      · next hzero _ =>
        refine ⟨?_, ?_, ?_, .inr ?_⟩
        · exact Nat.lt_trans (BitVec.isLt _) (by decide)
        · simp [hzero, Format.exponentBias]
        · simp [hzero, Format.exponentBias]
        · simp [hzero, Format.exponentBias]
    · next hnonzero =>
      have hpos : 0 < (@unpackExponent Format.binary64 a.toBits.toBitVec).toNat := by
        rw [Nat.pos_iff_ne_zero]
        intro h
        exact hnonzero (BitVec.eq_of_toNat_eq h)
      have hlt : (@unpackExponent Format.binary64 a.toBits.toBitVec).toNat < 2047 := by
        have hle := (@unpackExponent Format.binary64 a.toBits.toBitVec).isLt
        apply lt_of_le_of_ne (Nat.le_of_lt_succ hle)
        intro h
        exact hinfinite (BitVec.eq_of_toNat_eq h)
      have hmantissa := (@unpackMantissa Format.binary64 a.toBits.toBitVec).isLt
      simp only [Canonical, toNat_one_append, Format.exponentBias]
      dsimp only at hmantissa
      refine ⟨?_, ?_, ?_, .inl ?_⟩ <;> omega

section Order

/-- A number as a multiple of the least positive one. -/
def units : UnpackedFloat → ℤ
  | .finite s m e _ => s.apply (m * 2 ^ (e + 1074).toNat : ℕ)
  | _ => 0

theorem lex_lt_of_mul_lt {m m' : ℕ} {e e' : ℤ} (hm' : m' < 2 ^ 53) (he : -1074 ≤ e)
    (he' : -1074 ≤ e') (hm : 2 ^ 52 ≤ m ∨ e = -1074)
    (h : m * 2 ^ (e + 1074).toNat < m' * 2 ^ (e' + 1074).toNat) :
    e < e' ∨ e = e' ∧ m < m' := by
  rcases lt_trichotomy e e' with hlt | rfl | hgt
  · exact .inl hlt
  · exact .inr ⟨rfl, Nat.lt_of_mul_lt_mul_right h⟩
  · exfalso
    have hexponent : (e + 1074).toNat = (e - e' - 1).toNat + ((e' + 1074).toNat + 1) := by omega
    have hnormal : 2 ^ 52 ≤ m := hm.resolve_right (by omega)
    have hle : m' * 2 ^ (e' + 1074).toNat ≤ m * 2 ^ (e + 1074).toNat := by
      calc
        m' * 2 ^ (e' + 1074).toNat ≤ 2 ^ 53 * 2 ^ (e' + 1074).toNat :=
          Nat.mul_le_mul_right _ (Nat.le_of_lt hm')
        _ = 2 ^ 52 * 2 ^ ((e' + 1074).toNat + 1) := by ring
        _ ≤ m * 2 ^ (e + 1074).toNat := by
          apply Nat.mul_le_mul hnormal
          exact Nat.pow_le_pow_right (by decide) (by omega)
    omega

theorem rank_lt_of_units_lt {u v : UnpackedFloat} (hu : Canonical u) (hv : Canonical v)
    (finite_u : u.isFinite = true) (finite_v : v.isFinite = true) (h : units u < units v) :
    rank u < rank v := by
  rcases u with _ | _ | _ | ⟨_ | _, m, e, hm⟩ <;>
    rcases v with _ | _ | _ | ⟨_ | _, m', e', hm'⟩ <;>
    simp only [UnpackedFloat.isFinite, Bool.false_eq_true] at finite_u finite_v <;>
    simp only [units, Sign.apply, rank, Prod.Lex.toLex_lt_toLex, true_and] at h ⊢
  case finite.negative.finite.negative =>
      have hlex := lex_lt_of_mul_lt hu.1 hv.2.1 hu.2.1 hv.2.2.2 (by omega)
      omega
  case finite.positive.finite.positive =>
      have hlex := lex_lt_of_mul_lt hv.1 hu.2.1 hv.2.1 hu.2.2.2 (by omega)
      omega
  all_goals omega

end Order

section Packing

theorem unpackSign_packComponents {spec : Format} (s : Sign) (e : BitVec spec.exponentBits)
    (m : BitVec spec.mantissaBitsWithoutImplicit) :
    Sign.ofBitVec (unpackSign (packComponents spec s e m)) = s := by
  have hbit : unpackSign (packComponents spec s e m) = s.toBitVec := by
    apply BitVec.eq_of_getLsbD_eq
    intro i hi
    obtain rfl : i = 0 := by omega
    simp [unpackSign, packComponents, BitVec.getLsbD_append, BitVec.getElem_append]
  rw [hbit]
  cases s <;> rfl

theorem unpackSign_pack_finite (s : Sign) (m : ℕ) (e : ℤ) (hm : 0 < m) :
    Sign.ofBitVec (unpackSign (UnpackedFloat.pack Format.binary64 (.finite s m e hm))) = s := by
  rw [UnpackedFloat.pack]
  dsimp only
  split
  · exact unpackSign_packComponents _ _ _
  · split <;> exact unpackSign_packComponents _ _ _

theorem log2_le_of_lt {m : ℕ} (h : m < 2 ^ 53) : m.log2 ≤ 52 := by
  rcases Nat.eq_zero_or_pos m with rfl | hm
  · decide
  · exact Nat.le_of_lt_succ ((Nat.log2_lt hm.ne').mpr h)

theorem unpack_packComponents {s : Sign} {k m : ℕ} (hk : k + 1 < 2 ^ 11) (hpos : 0 < k) :
    UnpackedFloat.unpack Format.binary64
        (packComponents Format.binary64 s (BitVec.ofNat 11 k) (BitVec.ofNat 52 m)) =
      .finite s (2 ^ 52 + m % 2 ^ 52) (k - 1075) (by omega) := by
  have htoNat : (BitVec.ofNat 11 k).toNat = k := by
    rw [BitVec.toNat_ofNat, Nat.mod_eq_of_lt (by omega)]
  have hinfinite : BitVec.ofNat 11 k ≠ -1#11 := by
    intro h
    have hk' := congrArg BitVec.toNat h
    rw [htoNat] at hk'
    have : (-1#11 : BitVec 11).toNat = 2047 := by decide
    omega
  have hzero : BitVec.ofNat 11 k ≠ 0#11 := by
    intro h
    have hk' := congrArg BitVec.toNat h
    rw [htoNat] at hk'
    exact hpos.ne' hk'
  rw [UnpackedFloat.unpack]
  simp only [unpackExponent_packComponents, unpackMantissa_packComponents,
    unpackSign_packComponents, if_neg hinfinite, if_neg hzero, htoNat, toNat_one_append,
    BitVec.toNat_ofNat]
  rfl

theorem unpack_packComponents_zero {s : Sign} {m : ℕ} (hm : 0 < m) (hlt : m < 2 ^ 52) :
    UnpackedFloat.unpack Format.binary64
        (packComponents Format.binary64 s 0#11 (BitVec.ofNat 52 m)) =
      .finite s m (-1074) hm := by
  have htoNat : (BitVec.ofNat 52 m).toNat = m := by
    rw [BitVec.toNat_ofNat, Nat.mod_eq_of_lt hlt]
  have hzero : BitVec.ofNat 52 m ≠ 0#52 := by
    intro h
    have hm' := congrArg BitVec.toNat h
    rw [htoNat] at hm'
    exact hm.ne' hm'
  have hinfinite : 0#11 ≠ -1#11 := by decide
  rw [UnpackedFloat.unpack]
  simp only [unpackExponent_packComponents, unpackMantissa_packComponents,
    unpackSign_packComponents, if_neg hinfinite, if_pos, dif_neg hzero, htoNat]
  rfl

/-- A number in canonical form, unless it is too large, unpacks as it was packed. -/
theorem unpack_pack_finite {s : Sign} {m : ℕ} {e : ℤ} (hm : 0 < m)
    (hc : Canonical (.finite s m e hm)) :
    (Float.Model.pack (.finite s m e hm)).unpack = .finite s m e hm := by
  obtain ⟨hfit, hmin, hmax, hnormal⟩ := hc
  obtain ⟨k, hk⟩ : ∃ k : ℕ, (k : ℤ) = e + 1075 := ⟨(e + 1075).toNat, by omega⟩
  have hbiased : (e + Format.binary64.exponentBias + (52 : ℕ)).toNat = k := by
    have hbias : (Format.binary64.exponentBias : ℤ) = 1023 := rfl
    omega
  have hsmall : ¬ 2 ^ 11 ≤ k + 1 := by omega
  have hlog2 := log2_le_of_lt hfit
  rw [Float.Model.unpack, Float.Model.pack, UInt64.toBitVec_ofBitVec, UnpackedFloat.pack]
  simp only [hbiased, if_neg hsmall]
  by_cases hlog : 2 ^ 52 ≤ m
  · have hlower := (Nat.le_log2 hm.ne').mpr hlog
    have hleading : m.log2 + 1 = Format.binary64.mantissaBits := by
      change m.log2 + 1 = 53
      omega
    rw [if_pos hleading, unpack_packComponents (by omega) (by omega)]
    congr 1 <;> omega
  · have hleading : ¬ m.log2 + 1 = Format.binary64.mantissaBits := by
      have hupper := (Nat.log2_lt hm.ne').mpr (Nat.lt_of_not_le hlog)
      change ¬ m.log2 + 1 = 53
      omega
    obtain rfl : e = -1074 := hnormal.resolve_left hlog
    rw [if_neg hleading, unpack_packComponents_zero hm (Nat.lt_of_not_le hlog)]

theorem unpack_pack_large {s : Sign} {m : ℕ} {e : ℤ} {hm : 0 < m} (hlarge : 971 < e) :
    (Float.Model.pack (.finite s m e hm)).unpack = .infinity s := by
  have hbias : (Format.binary64.exponentBias : ℤ) = 1023 := rfl
  have hbiased : 2 ^ 11 ≤ (e + Format.binary64.exponentBias + (52 : ℕ)).toNat + 1 := by omega
  have hinfinite : UnpackedFloat.pack Format.binary64 (.finite s m e hm) =
      packedInfinity Format.binary64 s := by
    rw [UnpackedFloat.pack]
    exact if_pos hbiased
  rw [Float.Model.unpack, Float.Model.pack, UInt64.toBitVec_ofBitVec, hinfinite]
  cases s <;> rfl

end Packing

end LocalOptimization.Double
