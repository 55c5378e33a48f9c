import Mathlib
import ItemMetrics.Proofs.Double.Mantissa

/-! # Magnitudes of doubles

A double is finite exactly when it has a sign and a magnitude (`isFinite_iff`), and a number that is
packed keeps both unless its magnitude is out of range (`IsSigned.ofModel_pack`).

The lemmas on the fields of a packed number are those of `Batteries.Data.Float`, which no part of
Mathlib imports, only the whole. -/

namespace ItemMetrics.Double

open Float.Model Float.Model.UnpackedFloat

variable {s s' : Sign} {u : UnpackedFloat} {r r' : ℚ} {m : ℕ} {e : ℤ} {h : 0 < m} {x : Float}

/-! ## The fields of a double -/

theorem toNat_one_append (b : BitVec 52) : (1#1 ++ b).toNat = 2 ^ 52 + b.toNat := by
  rw [BitVec.toNat_append, ← Nat.shiftLeft_add_eq_or_of_lt b.isLt]
  rfl

theorem unpack_normal {exponent : BitVec 11} (fraction : BitVec 52) (hzero : exponent ≠ 0#11)
    (hones : exponent ≠ -1#11) (s : Sign) :
    unpack Format.binary64 (packComponents Format.binary64 s exponent fraction) =
      .finite s (2 ^ 52 + fraction.toNat) (exponent.toNat - 1075) (by positivity) := by
  unfold UnpackedFloat.unpack
  simp only [unpackMantissa_packComponents, unpackExponent_packComponents,
    unpackSign_packComponents, Sign.ofBitVec_toBitVec, hzero, hones, if_false]
  congr 1
  exact toNat_one_append fraction

theorem unpack_subnormal {fraction : BitVec 52} (hzero : 0 < fraction.toNat) (s : Sign) :
    unpack Format.binary64 (packComponents Format.binary64 s 0#11 fraction) =
      .finite s fraction.toNat (-1074) hzero := by
  have hfraction : fraction ≠ 0#52 := by
    rintro rfl
    exact absurd hzero (by decide)
  unfold UnpackedFloat.unpack
  simp only [unpackMantissa_packComponents, unpackExponent_packComponents,
    unpackSign_packComponents, Sign.ofBitVec_toBitVec, hfraction]
  rfl

theorem toNat_ofNat_exponent (hlow : -1074 ≤ e) (he : e ≤ 971) :
    (BitVec.ofNat 11 (e + 1075).toNat).toNat = (e + 1075).toNat := by
  rw [BitVec.toNat_ofNat, Nat.mod_eq_of_lt (by omega)]

/-- What is packed in canonical form and in range comes back. -/
theorem unpack_pack_finite (hc : Canonical m e) (he : e ≤ 971) :
    unpack Format.binary64 (UnpackedFloat.pack Format.binary64 (.finite s m e h)) =
      .finite s m e h := by
  have hlow := hc.smallest
  have hlt := hc.lt
  have hbias : (e + (Format.binary64.exponentBias : ℤ) + (52 : ℕ)).toNat = (e + 1075).toNat := by
    have : Format.binary64.exponentBias = 1023 := by decide
    omega
  have hexponent := toNat_ofNat_exponent hlow he
  unfold UnpackedFloat.pack
  dsimp only
  rw [hbias, if_neg (by omega)]
  by_cases hnormal : 2 ^ 52 ≤ m
  · have hlog : m.log2 + 1 = Format.binary64.mantissaBits :=
      congrArg (· + 1) ((Nat.log2_eq_iff h.ne').mpr ⟨hnormal, hlt⟩)
    have hzero : BitVec.ofNat 11 (e + 1075).toNat ≠ 0#11 := by
      intro heq
      rw [heq, BitVec.toNat_ofNat] at hexponent
      omega
    have hones : BitVec.ofNat 11 (e + 1075).toNat ≠ -1#11 := by
      intro heq
      rw [heq] at hexponent
      have : (-1#11 : BitVec 11).toNat = 2047 := by decide
      omega
    rw [if_pos hlog, unpack_normal _ hzero hones]
    congr 1
    · rw [BitVec.toNat_ofNat]
      omega
    · rw [hexponent]
      omega
  · have hsub : e = -1074 := hc.normal.resolve_right hnormal
    have hlog : m.log2 + 1 ≠ Format.binary64.mantissaBits := by
      have : m.log2 < 52 := (Nat.log2_lt h.ne').mpr (by omega)
      change m.log2 + 1 ≠ 53
      omega
    have hfraction : (BitVec.ofNat 52 m).toNat = m := by
      rw [BitVec.toNat_ofNat, Nat.mod_eq_of_lt (by omega)]
    rw [if_neg hlog]
    subst hsub
    have hpos : 0 < (BitVec.ofNat 52 m).toNat := by rwa [hfraction]
    rw [unpack_subnormal hpos]
    congr 1

/-- What a double unpacks to is in canonical form and in range. -/
theorem canonical_of_unpack {b : BitVec Format.binary64.numBits}
    (hb : UnpackedFloat.unpack Format.binary64 b = .finite s m e h) : Canonical m e ∧ e ≤ 971 := by
  unfold UnpackedFloat.unpack at hb
  dsimp only at hb
  have hfraction : (unpackMantissa b).toNat < 2 ^ 52 := (unpackMantissa b).isLt
  split at hb
  · split at hb <;> cases hb
  · next hones =>
    split at hb
    · next hzero =>
      split at hb
      · cases hb
      · cases hb
        rw [hzero]
        exact ⟨⟨by omega, by decide, .inl (by decide)⟩, by decide⟩
    · next hzero =>
      cases hb
      have hlast : (unpackExponent b).toNat ≠ 2047 := fun heq => hones (BitVec.eq_of_toNat_eq heq)
      have hbound : (unpackExponent b).toNat < 2 ^ 11 := (unpackExponent b).isLt
      have hexponent : (unpackExponent b).toNat ≠ 0 := fun heq => hzero (BitVec.eq_of_toNat_eq heq)
      have hbias : Format.binary64.exponentBias = 1023 := by decide
      have hmantissa : (1#1 ++ unpackMantissa b).toNat = 2 ^ 52 + (unpackMantissa b).toNat :=
        toNat_one_append (unpackMantissa b)
      rw [hmantissa, hbias]
      exact ⟨⟨by omega, by omega, .inr (by omega)⟩, by omega⟩

/-! ## Signs and magnitudes -/

/-- A double is finite, with a sign and a magnitude. -/
def IsSigned (x : Float) (s : Sign) (r : ℚ) : Prop :=
  Signed s x.toModel.unpack r

theorem Signed.nonneg (h : Signed s u r) : 0 ≤ r := by
  cases h <;> positivity

theorem Signed.unique (h : Signed s u r) (h' : Signed s' u r') : s = s' ∧ r = r' := by
  cases h <;> cases h' <;> exact ⟨rfl, rfl⟩

/-- A magnitude in range has an exponent in range. -/
theorem Canonical.exponent_le (hc : Canonical m e) (hr : m * 2 ^ e ≤ (2 : ℚ) ^ (1023 : ℤ)) :
    e ≤ 971 := by
  rcases hc.normal with rfl | hnormal
  · decide
  · have hnormal : ((2 ^ 52 : ℕ) : ℚ) ≤ m := by exact_mod_cast hnormal
    have hle : (2 : ℚ) ^ (52 + e) ≤ 2 ^ (1023 : ℤ) := by
      rw [zpow_add₀ two_ne_zero]
      refine le_trans (mul_le_mul_of_nonneg_right ?_ (by positivity)) hr
      exact_mod_cast hnormal
    have := (zpow_le_zpow_iff_right₀ one_lt_two).mp hle
    omega

theorem unpack_zero (s : Sign) : (Float.Model.pack (.zero s)).unpack = .zero s :=
  unpack_packedZero

theorem unpack_finite (hc : Canonical m e) (he : e ≤ 971) :
    (Float.Model.pack (.finite s m e h)).unpack = .finite s m e h :=
  unpack_pack_finite hc he

theorem IsSigned.ofModel_pack (hu : Signed s u r) (hr : r ≤ 2 ^ (1023 : ℤ)) :
    IsSigned (.ofModel (Float.Model.pack u)) s r := by
  unfold IsSigned
  cases hu with
  | zero =>
    rw [unpack_zero]
    exact .zero
  | finite hc =>
    rw [unpack_finite hc (hc.exponent_le hr)]
    exact .finite hc

theorem IsSigned.lt (hx : IsSigned x s r) : r < 2 ^ (1024 : ℤ) := by
  unfold IsSigned at hx
  generalize hu : x.toModel.unpack = u at hx
  cases hx with
  | zero => positivity
  | @finite m e h hc =>
    have hm : (m : ℚ) < 2 ^ (53 : ℤ) := by
      rw [zpow_ofNat]
      exact_mod_cast hc.lt
    calc (m : ℚ) * 2 ^ e < 2 ^ (53 : ℤ) * 2 ^ e := mul_lt_mul_of_pos_right hm (by positivity)
      _ = 2 ^ (53 + e) := (zpow_add₀ two_ne_zero _ _).symm
      _ ≤ 2 ^ (1024 : ℤ) := by
        have := (canonical_of_unpack hu).2
        exact zpow_le_zpow_right₀ one_le_two (by omega)

theorem isFinite_iff : x.isFinite = true ↔ ∃ s r, IsSigned x s r := by
  unfold IsSigned
  change x.toModel.unpack.isFinite = true ↔ _
  cases hx : x.toModel.unpack with
  | infinity s =>
    constructor
    · intro h
      cases h
    · rintro ⟨_, _, ⟨⟩⟩
  | notANumber =>
    constructor
    · intro h
      cases h
    · rintro ⟨_, _, ⟨⟩⟩
  | zero s => exact ⟨fun _ => ⟨s, 0, .zero⟩, fun _ => rfl⟩
  | finite s m e h => exact ⟨fun _ => ⟨s, _, .finite (canonical_of_unpack hx).1⟩, fun _ => rfl⟩

end ItemMetrics.Double
