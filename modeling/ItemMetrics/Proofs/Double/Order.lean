import ItemMetrics.Proofs.Double.Arithmetic

/-! # Signs, comparisons and integers

Doubles are compared as their magnitudes are (`lt_iff`, `beq_zero_iff`), and an integer that becomes
a double stays between the powers of two around it (`exists_isSigned_ofInt`). -/

namespace ItemMetrics.Double

open Float.Model Float.Model.UnpackedFloat

variable {s s' : Sign} {u u' : UnpackedFloat} {a b r : ℚ} {m m' : ℕ} {e e' : ℤ} {x y : Float}
  {N : ℤ}

/-! ## Signs -/

theorem IsSigned.abs (hx : IsSigned x s r) : IsSigned x.abs .positive r := by
  unfold IsSigned at *
  change Signed .positive (Float.Model.pack x.toModel.unpack.abs).unpack r
  generalize hu : x.toModel.unpack = u at hx ⊢
  cases hx with
  | zero =>
    change Signed .positive (Float.Model.pack (.zero .positive)).unpack 0
    rw [unpack_zero]
    exact .zero
  | @finite m e h hc =>
    change Signed .positive (Float.Model.pack (.finite .positive m e h)).unpack _
    rw [unpack_finite hc (canonical_of_unpack hu).2]
    exact .finite hc

theorem IsSigned.neg (hx : IsSigned x s r) : IsSigned (-x) (-s) r := by
  unfold IsSigned at *
  change Signed (-s) (Float.Model.pack x.toModel.unpack.neg).unpack r
  generalize hu : x.toModel.unpack = u at hx ⊢
  cases hx with
  | zero =>
    change Signed (-s) (Float.Model.pack (.zero (-s))).unpack 0
    rw [unpack_zero]
    exact .zero
  | @finite m e h hc =>
    change Signed (-s) (Float.Model.pack (.finite (-s) m e h)).unpack _
    rw [unpack_finite hc (canonical_of_unpack hu).2]
    exact .finite hc

theorem toNat_unpackSign (b : BitVec Format.binary64.numBits) :
    (unpackSign b).toNat = b.toNat >>> 63 := by
  have hlt : b.toNat < 2 ^ 64 := b.isLt
  change (b.toNat >>> 63) % 2 ^ 1 = b.toNat >>> 63
  rw [Nat.shiftRight_eq_div_pow]
  omega

theorem ofBitVec_unpackSign {b : BitVec Format.binary64.numBits}
    (h : Signed s (UnpackedFloat.unpack Format.binary64 b) r) :
    Sign.ofBitVec (unpackSign b) = s := by
  unfold UnpackedFloat.unpack at h
  dsimp only at h
  split at h
  · split at h <;> cases h
  · split at h
    · split at h <;> cases h <;> rfl
    · cases h
      rfl

theorem ofBitVec_unpackSign_eq_negative_iff (b : BitVec Format.binary64.numBits) :
    Sign.ofBitVec (unpackSign b) = .negative ↔ b.toNat >>> 63 = 1 := by
  rw [← toNat_unpackSign b]
  rcases BitVec.eq_zero_or_eq_one (unpackSign b) with hzero | hone
  · rw [hzero]
    exact iff_of_false (fun h => by cases h) (by decide)
  · rw [hone]
    exact iff_of_true rfl rfl

/-- The first bit tells the sign. -/
theorem IsSigned.negative_iff (hx : IsSigned x s r) :
    x.toBits.toNat >>> 63 = 1 ↔ s = .negative := by
  rw [← ofBitVec_unpackSign hx]
  exact (ofBitVec_unpackSign_eq_negative_iff x.toModel.toBits.toBitVec).symm

/-! ## Comparisons -/

/-- A larger exponent makes a larger magnitude. -/
theorem Canonical.lt_of_exponent_lt (hc : Canonical m e) (hc' : Canonical m' e') (h : e < e') :
    (m : ℚ) * 2 ^ e < m' * 2 ^ e' := by
  have hnormal := hc'.normal.resolve_left (by have := hc.smallest; omega)
  have hpos : (0 : ℚ) < 2 ^ e := by positivity
  calc (m : ℚ) * 2 ^ e < 2 ^ (53 : ℕ) * 2 ^ e :=
        mul_lt_mul_of_pos_right (by exact_mod_cast hc.lt) hpos
    _ = 2 ^ (52 : ℕ) * 2 ^ (e + 1) := by
        rw [zpow_add_one₀ two_ne_zero]
        ring
    _ ≤ m' * 2 ^ e' := by
        gcongr
        · exact_mod_cast hnormal
        · exact one_le_two
        · omega

theorem Canonical.lt_iff (hc : Canonical m e) (hc' : Canonical m' e') :
    (m : ℚ) * 2 ^ e < m' * 2 ^ e' ↔ e < e' ∨ e = e' ∧ m < m' := by
  rcases lt_trichotomy e e' with h | rfl | h
  · exact iff_of_true (hc.lt_of_exponent_lt hc' h) (.inl h)
  · have hpos : (0 : ℚ) < 2 ^ e := by positivity
    rw [mul_lt_mul_iff_left₀ hpos, Nat.cast_lt]
    simp
  · refine iff_of_false (hc'.lt_of_exponent_lt hc h).not_gt ?_
    rintro (h' | ⟨rfl, -⟩) <;> omega

theorem Signed.compare_eq_lt_iff (hu : Signed .positive u a) (hu' : Signed .positive u' b) :
    u.compare u' = some .lt ↔ a < b := by
  cases hu with
  | zero =>
    cases hu' with
    | zero => exact iff_of_false (fun h => by cases h) (lt_irrefl 0)
    | @finite m' e' hm' hc' =>
      have : (0 : ℚ) < m' := by exact_mod_cast hm'
      exact iff_of_true rfl (by positivity)
  | @finite m e hm hc =>
    cases hu' with
    | zero => exact iff_of_false (fun h => by cases h) (by positivity : (0 : ℚ) ≤ _).not_gt
    | @finite m' e' hm' hc' =>
      rw [hc.lt_iff hc', ← Int.compare_eq_lt, ← Nat.compare_eq_lt, ← Int.compare_eq_eq]
      change some ((compare e e').then (compare m m')) = some .lt ↔ _
      rw [Option.some_inj, Ordering.then_eq_lt]

theorem lt_iff (hx : IsSigned x .positive a) (hy : IsSigned y .positive b) : x < y ↔ a < b := by
  rw [← Signed.compare_eq_lt_iff hx hy]
  change decide (x.toModel < y.toModel) = true ↔ _
  rw [decide_eq_true_iff]
  change (x.toModel.unpack.compare y.toModel.unpack == some .lt) = true ↔ _
  exact beq_iff_eq

theorem beq_zero_iff (hx : IsSigned x s r) : (x == 0) = true ↔ r = 0 := by
  unfold IsSigned at hx
  change (x.toModel.unpack.compare (.zero .positive) == some .eq) = true ↔ r = 0
  generalize x.toModel.unpack = u at hx ⊢
  cases hx with
  | zero => exact iff_of_true rfl rfl
  | @finite m e h hc =>
    have hm : (m : ℚ) ≠ 0 := by exact_mod_cast h.ne'
    have hr : (m : ℚ) * 2 ^ e ≠ 0 := by positivity
    refine iff_of_false ?_ hr
    cases s <;> exact Bool.false_ne_true

/-! ## Products that are finite -/

theorem unpack_infinity (s : Sign) : (Float.Model.pack (.infinity s)).unpack = .infinity s := by
  cases s <;> rfl

theorem unpack_notANumber : (Float.Model.pack .notANumber).unpack = .notANumber :=
  unpack_packedNaN

/-- A product is finite only if its factors are. -/
theorem exists_isSigned_of_mul (hx : IsSigned x s a) (h : (x * y).isFinite = true) :
    ∃ s' b, IsSigned y s' b := by
  rw [← isFinite_iff]
  change y.toModel.unpack.isFinite = true
  change (Float.Model.pack (UnpackedFloat.mul Format.binary64 x.toModel.unpack
    y.toModel.unpack)).unpack.isFinite = true at h
  unfold IsSigned at hx
  generalize x.toModel.unpack = u at hx h
  generalize y.toModel.unpack = u' at h ⊢
  cases u' with
  | zero | finite => rfl
  | infinity s' =>
    cases hx with
    | zero =>
      change (Float.Model.pack .notANumber).unpack.isFinite = true at h
      rw [unpack_notANumber] at h
      cases h
    | finite =>
      change (Float.Model.pack (.infinity (s * s'))).unpack.isFinite = true at h
      rw [unpack_infinity] at h
      cases h
  | notANumber =>
    have hmul : UnpackedFloat.mul Format.binary64 u .notANumber = .notANumber := by
      cases u <;> rfl
    rw [hmul, unpack_notANumber] at h
    cases h

/-! ## Integers -/

theorem isSigned_zero : IsSigned 0 .positive 0 :=
  Signed.zero

theorem isSigned_one : IsSigned 1 .positive 1 := by
  have h : Signed .positive (.finite .positive (2 ^ 52) (-52) (by decide))
      ((2 ^ 52 : ℕ) * 2 ^ (-52 : ℤ)) :=
    .finite ⟨by decide, by decide, .inr le_rfl⟩
  norm_num at h
  exact h

theorem signedRounded_ofNat (n : ℕ) :
    SignedRounded .positive (UnpackedFloat.ofInt Format.binary64 n) n := by
  rcases Nat.eq_zero_or_pos n with rfl | hn
  · exact Signed.zero.signedRounded
  · have h := signedRounded_normalize (n := (n : ℤ)) (by omega) 0 .positive
    rwa [zpow_zero, mul_one, Int.cast_natCast] at h

theorem ofNat_of_lt {n : ℕ} (hn : n < 2 ^ 53) :
    Float.ofNat n =
      .ofModel (Float.Model.pack (UnpackedFloat.ofInt Format.binary64 (n : ℤ))) * 1 := by
  have hword : n.toUInt64.toNat = n := Nat.mod_eq_of_lt (by omega)
  have hfloat : n.toUInt64.toFloat =
      .ofModel (Float.Model.pack (UnpackedFloat.ofInt Format.binary64 (n.toUInt64.toNat : ℤ))) := rfl
  have hone : Float.exactlyRepresentablePowersOfTen[0] = 1 := rfl
  change Float.ofScientific n false 0 = _
  unfold Float.ofScientific
  rw [dif_pos ⟨hn, Nat.zero_le 22⟩, if_neg Bool.false_ne_true, hone, hfloat, hword]

theorem ofNat_of_ge {n : ℕ} (hn : ¬ n < 2 ^ 53) :
    Float.ofNat n = .ofModel (Float.Model.pack
      (roundWithAccuracy Format.binary64 .positive (n <<< 53 * 1) (-53) .exact)) := by
  change Float.ofScientific n false 0 = _
  unfold Float.ofScientific
  rw [dif_neg fun h => hn h.1]
  change Float.ofModel (Float.Model.pack (UnpackedFloat.ofScientific Format.binary64 n 0)) = _
  have hbits : (0 : ℤ) ≤ 2 ^ Format.binary64.exponentBits := by positivity
  unfold UnpackedFloat.ofScientific
  rw [dif_neg (by omega), if_neg (by decide), if_neg (by omega), if_pos le_rfl]
  rfl

/-- A natural number becomes the double nearest to it. -/
theorem roundsTo_ofNat (n : ℕ) : RoundsTo (Float.ofNat n) .positive n := by
  by_cases hsmall : n < 2 ^ 53
  · have hn : (n : ℚ) ≤ 2 ^ (53 : ℤ) := by
      rw [zpow_ofNat]
      exact_mod_cast hsmall.le
    obtain ⟨r, hr, -, hrounded⟩ :=
      (signedRounded_ofNat n).roundsTo.exists_le (by decide) (by decide) hn
    have hproduct := roundsTo_mul hr isSigned_one
    rwa [mul_one, ← ofNat_of_lt hsmall, hrounded.eq_natCast hsmall] at hproduct
  · have hunit : (-53 : ℤ) ≤ unit (n <<< 53 * 1) (-53) := by
      have hpos : 0 < n := by omega
      rw [unit_eq, mul_one, Nat.shiftLeft_eq, log2_mul_two_pow hpos]
      omega
    have hround := (signedRounded_exact hunit .positive).roundsTo
    have hmagnitude : ((n <<< 53 * 1 : ℕ) : ℚ) * 2 ^ (-53 : ℤ) = n := by
      rw [mul_one, Nat.shiftLeft_eq]
      push_cast
      norm_num [mul_assoc]
    rwa [hmagnitude, ← ofNat_of_ge hsmall] at hround

/-- The sign that an integer has as a double. -/
def signOf : ℤ → Sign
  | .ofNat _ => .positive
  | .negSucc _ => .negative

/-- An integer becomes the double nearest to it. -/
theorem roundsTo_ofInt (n : ℤ) : RoundsTo (Float.ofInt n) (signOf n) |(n : ℚ)| := by
  cases n with
  | ofNat n =>
    have hn : |((Int.ofNat n : ℤ) : ℚ)| = n := by simp
    rw [hn]
    exact roundsTo_ofNat n
  | negSucc n =>
    have hn : |((Int.negSucc n : ℤ) : ℚ)| = (n + 1 : ℕ) := by
      rw [Int.cast_negSucc, abs_neg, Nat.abs_cast]
    obtain ⟨r, hrounded, hr⟩ := roundsTo_ofNat (n + 1)
    rw [hn]
    exact ⟨r, hrounded, fun hle => (hr hle).neg⟩

theorem abs_intCast_le {n : ℤ} {k : ℕ} (hlow : -2 ^ k ≤ n) (hup : n ≤ 2 ^ k) :
    |(n : ℚ)| ≤ 2 ^ (k : ℤ) := by
  rw [zpow_natCast, abs_le]
  exact ⟨by exact_mod_cast hlow, by exact_mod_cast hup⟩

/-- An integer below a power of two becomes a finite double below it, and it is not lost. -/
theorem exists_isSigned_ofInt {n : ℤ} (hlow : 0 ≤ N) (hup : N ≤ 1023) (hn : |(n : ℚ)| ≤ 2 ^ N) :
    ∃ s r, IsSigned (Float.ofInt n) s r ∧ r ≤ 2 ^ N ∧ (n ≠ 0 → 1 ≤ r) := by
  obtain ⟨r, hr, hle, hrounded⟩ := (roundsTo_ofInt n).exists_le (by omega) hup hn
  refine ⟨_, r, hr, hle, fun hne => ?_⟩
  have hone : (2 : ℚ) ^ (0 : ℤ) ≤ |(n : ℚ)| := by
    rw [zpow_zero]
    exact_mod_cast Int.one_le_abs hne
  have := hrounded.pow_le (by decide) hone
  rwa [zpow_zero] at this

end ItemMetrics.Double
