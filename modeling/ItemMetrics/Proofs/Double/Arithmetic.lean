import ItemMetrics.Proofs.Double.Packing

/-! # Arithmetic on doubles

Each operation comes to the exact result rounded, as long as that is in range (`RoundsTo`): products
(`roundsTo_mul`), quotients (`roundsTo_div`), sums and differences of positive numbers
(`roundsTo_add`, `roundsTo_sub`). -/

namespace ItemMetrics.Double

open Float.Model Float.Model.UnpackedFloat

/-- A number in canonical form is a magnitude rounded. -/
def SignedRounded (s : Sign) (u : UnpackedFloat) (v : ℚ) : Prop :=
  ∃ r, Rounded v r ∧ Signed s u r

/-- A double is a magnitude rounded, unless that is out of range. -/
def RoundsTo (x : Float) (s : Sign) (v : ℚ) : Prop :=
  ∃ r, Rounded v r ∧ (r ≤ 2 ^ (1023 : ℤ) → IsSigned x s r)

variable {s s' : Sign} {u u' : UnpackedFloat} {a b v r : ℚ} {m m' : ℕ} {e e' : ℤ} {x y : Float}
  {N : ℤ}

theorem SignedRounded.roundsTo (h : SignedRounded s u v) :
    RoundsTo (.ofModel (Float.Model.pack u)) s v := by
  obtain ⟨r, hr, hu⟩ := h
  exact ⟨r, hr, fun hle => .ofModel_pack hu hle⟩

/-- Below a power of two that is in range a result is finite and below it too. -/
theorem RoundsTo.exists_le (h : RoundsTo x s v) (hlow : -1074 ≤ N) (hup : N ≤ 1023)
    (hv : v ≤ 2 ^ N) : ∃ r, IsSigned x s r ∧ r ≤ 2 ^ N ∧ Rounded v r := by
  obtain ⟨r, hr, hx⟩ := h
  have hle := hr.le_pow hlow hv
  exact ⟨r, hx (hle.trans (zpow_le_zpow_right₀ one_le_two hup)), hle, hr⟩

/-- A finite result that exceeds a power of two comes from a magnitude that exceeds it. -/
theorem RoundsTo.pow_lt (h : RoundsTo x s v) (hx : IsSigned x s' a) (hlow : -1074 ≤ N)
    (ha : 2 ^ N < a) : 2 ^ N < v := by
  have hN : N < 1024 := (zpow_lt_zpow_iff_right₀ one_lt_two).mp (ha.trans hx.lt)
  by_contra! hv
  obtain ⟨r, hr, hle, -⟩ := h.exists_le hlow (by omega) hv
  rw [(Signed.unique hx hr).2] at ha
  exact hle.not_gt ha

/-! ## Numbers that are doubles already -/

theorem Canonical.rounded (h : Canonical m e) : Rounded (m * 2 ^ e) (m * 2 ^ e) := by
  have hpos : (0 : ℚ) < 2 ^ e := by positivity
  have hquotient : (m : ℚ) * 2 ^ e / 2 ^ e = m := mul_div_cancel_right₀ _ hpos.ne'
  refine .intro h.smallest (h.normal.imp_right fun hnormal => ?_) ?_ ?_
  · rw [add_comm, zpow_add₀ two_ne_zero]
    exact mul_le_mul_of_nonneg_right (by exact_mod_cast hnormal) hpos.le
  · rw [add_comm, zpow_add₀ two_ne_zero]
    exact mul_lt_mul_of_pos_right (by exact_mod_cast h.lt) hpos
  · rw [hquotient]
    exact .natCast m

theorem Signed.signedRounded (h : Signed s u r) : SignedRounded s u r := by
  refine ⟨r, ?_, h⟩
  cases h with
  | zero => exact .zero
  | finite hc => exact hc.rounded

/-! ## Integers and exact sums -/

theorem log2_mul_two_pow (hm : 0 < m) (k : ℕ) : (m * 2 ^ k).log2 = m.log2 + k := by
  have hlow := Nat.log2_self_le hm.ne'
  have hup : m < 2 ^ (m.log2 + 1) := Nat.lt_log2_self
  rw [Nat.log2_eq_iff (by positivity), pow_add, add_right_comm, pow_add]
  exact ⟨Nat.mul_le_mul_right _ hlow, Nat.mul_lt_mul_of_pos_right hup (by positivity)⟩

/-- A mantissa that nothing was cut off. -/
theorem signedRounded_exact (h : e ≤ unit m e) (s : Sign) :
    SignedRounded s (roundWithAccuracy Format.binary64 s m e .exact) (m * 2 ^ e) := by
  have hexact : Locates (.ofMantissaAndAccuracy m .exact) m := .exact m
  exact signed_roundWithAccuracy hexact h s

theorem signedRounded_round (hm : 0 < m) (e : ℤ) (s : Sign) :
    SignedRounded s (UnpackedFloat.round Format.binary64 s m e) (m * 2 ^ e) := by
  have hlog := log2_mul_two_pow hm (e - unit m e).toNat
  have hunit : unit (m * 2 ^ (e - unit m e).toNat) (e - (e - unit m e).toNat) = unit m e := by
    rw [unit_eq, hlog, unit_eq]
    push_cast
    congr 1
    omega
  have hmagnitude : ((m * 2 ^ (e - unit m e).toNat : ℕ) : ℚ) *
      2 ^ (e - ((e - unit m e).toNat : ℤ)) = m * 2 ^ e := by
    push_cast
    rw [mul_assoc, ← zpow_natCast, ← zpow_add₀ two_ne_zero, add_sub_cancel]
  have h := signedRounded_exact (by rw [hunit]; omega : e - ((e - unit m e).toNat : ℤ) ≤
    unit (m * 2 ^ (e - unit m e).toNat) (e - (e - unit m e).toNat)) s
  rw [hmagnitude, ← Nat.shiftLeft_eq] at h
  exact h

/-! ## Sums and differences of positive numbers -/

/-- A positive integer times a power of two. -/
theorem signedRounded_normalize {n : ℤ} (hn : 0 < n) (e : ℤ) (s : Sign) :
    SignedRounded .positive (UnpackedFloat.normalize Format.binary64 n e s) (n * 2 ^ e) := by
  have hcast : ((n.toNat : ℕ) : ℚ) = n := by exact_mod_cast Int.toNat_of_nonneg hn.le
  unfold UnpackedFloat.normalize
  rw [Int.compare_eq_gt.mpr hn, ← hcast]
  exact signedRounded_round (by omega) e .positive

/-- A magnitude keeps its value when its exponent is decreased. -/
theorem decreaseExponent_eq (m : ℕ) (h : e' ≤ e) :
    ((decreaseExponent m e e').1 : ℚ) * 2 ^ e' = m * 2 ^ e := by
  have hsub : ((e - e').toNat : ℤ) = e - e' := Int.toNat_of_nonneg (by omega)
  unfold decreaseExponent
  dsimp only
  rw [Nat.shiftLeft_eq]
  push_cast
  rw [mul_assoc, ← zpow_natCast, hsub, ← zpow_add₀ two_ne_zero, sub_add_cancel]

theorem decreaseExponent_pos (hm : 0 < m) (e e' : ℤ) : 0 < (decreaseExponent m e e').1 := by
  unfold decreaseExponent
  dsimp only
  rw [Nat.shiftLeft_eq]
  positivity

theorem signedRounded_add (hu : Signed .positive u a) (hu' : Signed .positive u' b) :
    SignedRounded .positive (UnpackedFloat.add Format.binary64 u u') (a + b) := by
  cases hu with
  | zero =>
    rw [zero_add]
    cases hu' with
    | zero => exact Signed.zero.signedRounded
    | finite hc => exact (Signed.finite hc).signedRounded
  | @finite m e hm hc =>
    cases hu' with
    | zero =>
      rw [add_zero]
      exact (Signed.finite hc).signedRounded
    | @finite m' e' hm' hc' =>
      have hleft := decreaseExponent_eq m (min_le_left e e')
      have hright := decreaseExponent_eq m' (min_le_right e e')
      have hpos := decreaseExponent_pos hm e (min e e')
      have h := signedRounded_normalize (n := (decreaseExponent m e (min e e')).1 +
        (decreaseExponent m' e' (min e e')).1) (by omega) (min e e') .positive
      rw [Int.cast_add, Int.cast_natCast, Int.cast_natCast, add_mul, hleft, hright] at h
      exact h

theorem signedRounded_sub (hu : Signed .positive u a) (hu' : Signed .positive u' b)
    (hb : 0 < b) (hab : b ≤ a) :
    SignedRounded .positive (UnpackedFloat.sub Format.binary64 u u') (a - b) := by
  cases hu' with
  | zero => exact absurd hb (lt_irrefl 0)
  | @finite m' e' hm' hc' =>
    cases hu with
    | zero => exact absurd (hb.trans_le hab) (lt_irrefl 0)
    | @finite m e hm hc =>
      have hleft := decreaseExponent_eq m (min_le_left e e')
      have hright := decreaseExponent_eq m' (min_le_right e e')
      have hpos : (0 : ℚ) < 2 ^ min e e' := by positivity
      rw [← hleft, ← hright] at hab ⊢
      have hle : (decreaseExponent m' e' (min e e')).1 ≤ (decreaseExponent m e (min e e')).1 := by
        exact_mod_cast le_of_mul_le_mul_right hab hpos
      change SignedRounded _ (UnpackedFloat.normalize Format.binary64
        (((decreaseExponent m e (min e e')).1 : ℤ) - (decreaseExponent m' e' (min e e')).1)
        (min e e') .positive) _
      rcases hle.lt_or_eq with hlt | heq
      · have h := signedRounded_normalize (n := (decreaseExponent m e (min e e')).1 -
          (decreaseExponent m' e' (min e e')).1) (by omega) (min e e') .positive
        rwa [Int.cast_sub, Int.cast_natCast, Int.cast_natCast, sub_mul] at h
      · rw [heq, sub_self, sub_self]
        exact Signed.zero.signedRounded

/-! ## Products and quotients -/

/-- A product has more bits than its unit leaves, or its unit is the smallest. -/
theorem Canonical.mul_le_unit (hc : Canonical m e) (hm : 0 < m) (hc' : Canonical m' e')
    (hm' : 0 < m') : e + e' ≤ unit (m * m') (e + e') := by
  have hbits (hle : 2 ^ 52 ≤ m * m') : e + e' ≤ unit (m * m') (e + e') := by
    have hlog := (Nat.le_log2 (by positivity)).mpr hle
    rw [unit_eq]
    omega
  rcases hc.normal with rfl | hnormal
  · rcases hc'.normal with rfl | hnormal'
    · rw [unit_eq]
      omega
    · exact hbits (hnormal'.trans (Nat.le_mul_of_pos_left m' hm))
  · exact hbits (hnormal.trans (Nat.le_mul_of_pos_right m hm'))

theorem signedRounded_mul (hu : Signed s u a) (hu' : Signed s' u' b) :
    SignedRounded (s * s') (UnpackedFloat.mul Format.binary64 u u') (a * b) := by
  cases hu with
  | zero =>
    rw [zero_mul]
    cases hu' <;> exact Signed.zero.signedRounded
  | @finite m e hm hc =>
    cases hu' with
    | zero =>
      rw [mul_zero]
      exact Signed.zero.signedRounded
    | @finite m' e' hm' hc' =>
      have h := signedRounded_exact (hc.mul_le_unit hm hc' hm') (s * s')
      have hmagnitude : ((m * m' : ℕ) : ℚ) * 2 ^ (e + e') = m * 2 ^ e * (m' * 2 ^ e') := by
        rw [zpow_add₀ two_ne_zero]
        push_cast
        ring
      rwa [hmagnitude] at h

/-- A quotient of mantissas has at least the bits of their difference. -/
theorem log2_le_log2_div (hm : 0 < m) (hm' : 0 < m') (k : ℕ) :
    m.log2 + k ≤ m'.log2 + (m * 2 ^ k / m').log2 + 1 := by
  have hlow := Nat.log2_self_le hm.ne'
  have hup : m' < 2 ^ (m'.log2 + 1) := Nat.lt_log2_self
  have hquotient : m * 2 ^ k / m' + 1 ≤ 2 ^ ((m * 2 ^ k / m').log2 + 1) := Nat.lt_log2_self
  have hlt : 2 ^ (m.log2 + k) < 2 ^ (m'.log2 + 1 + ((m * 2 ^ k / m').log2 + 1)) := by
    calc 2 ^ (m.log2 + k) = 2 ^ m.log2 * 2 ^ k := pow_add _ _ _
      _ ≤ m * 2 ^ k := Nat.mul_le_mul_right _ hlow
      _ < m' * (m * 2 ^ k / m' + 1) := Nat.lt_mul_div_succ _ hm'
      _ ≤ 2 ^ (m'.log2 + 1) * 2 ^ ((m * 2 ^ k / m').log2 + 1) := Nat.mul_le_mul hup.le hquotient
      _ = 2 ^ (m'.log2 + 1 + ((m * 2 ^ k / m').log2 + 1)) := (pow_add _ _ _).symm
  have := (Nat.pow_lt_pow_iff_right (by decide)).mp hlt
  omega

/-- The exponent at which mantissas are divided. -/
def quotientExponent (m : ℕ) (e : ℤ) (m' : ℕ) (e' : ℤ) : ℤ :=
  min (e - e') (Format.binary64.targetExponent (totalExponent m e - totalExponent m' e'))

theorem quotientExponent_le_unit (hm : 0 < m) (hm' : 0 < m') (e e' : ℤ) :
    quotientExponent m e m' e' ≤ unit (m * 2 ^ (e - e' - quotientExponent m e m' e').toNat / m')
      (quotientExponent m e m' e') := by
  have hlog := log2_le_log2_div hm hm' (e - e' - quotientExponent m e m' e').toNat
  have hleft : quotientExponent m e m' e' ≤ e - e' := min_le_left _ _
  have hright : quotientExponent m e m' e' ≤
      max (m.log2 + 1 + e - (m'.log2 + 1 + e') - 53) (-1074) := min_le_right _ _
  rw [unit_eq]
  omega

/-- A quotient of mantissas with its remainder is the quotient of the magnitudes. -/
theorem quotient_eq {t : ℤ} (hm' : 0 < m') (ht : t ≤ e - e') :
    ((m * 2 ^ (e - e' - t).toNat / m' : ℕ) + (m * 2 ^ (e - e' - t).toNat % m' : ℕ) / m' : ℚ) *
      2 ^ t = m * 2 ^ e / (m' * 2 ^ e') := by
  have hpos : (m' : ℚ) ≠ 0 := by exact_mod_cast hm'.ne'
  have hsub : ((e - e' - t).toNat : ℤ) = e - e' - t := Int.toNat_of_nonneg (by omega)
  have hdivision : (m' : ℚ) * (m * 2 ^ (e - e' - t).toNat / m' : ℕ) +
      (m * 2 ^ (e - e' - t).toNat % m' : ℕ) = m * 2 ^ (e - e' - t) := by
    rw [← hsub, zpow_natCast]
    exact_mod_cast Nat.div_add_mod (m * 2 ^ (e - e' - t).toNat) m'
  have hpower : (2 : ℚ) ^ (e - e' - t) * 2 ^ t * 2 ^ e' = 2 ^ e := by
    rw [← zpow_add₀ two_ne_zero, ← zpow_add₀ two_ne_zero]
    congr 1
    omega
  rw [eq_div_iff (by positivity), ← hpower]
  generalize (m * 2 ^ (e - e' - t).toNat / m' : ℕ) = q at *
  generalize (m * 2 ^ (e - e' - t).toNat % m' : ℕ) = r at *
  calc (q + r / m' : ℚ) * 2 ^ t * (m' * 2 ^ e') = (m' * q + r) * (2 ^ t * 2 ^ e') := by
        field_simp
    _ = m * (2 ^ (e - e' - t) * 2 ^ t * 2 ^ e') := by
        rw [hdivision]
        ring

theorem signedRounded_div (hu : Signed s u a) (hu' : Signed s' u' b) (hb : 0 < b) :
    SignedRounded (s / s') (UnpackedFloat.div Format.binary64 u u') (a / b) := by
  cases hu' with
  | zero => exact absurd hb (lt_irrefl 0)
  | @finite m' e' hm' hc' =>
    cases hu with
    | zero =>
      rw [zero_div]
      exact Signed.zero.signedRounded
    | @finite m e hm hc =>
      have hlocates := Locates.ofFraction
        (m * 2 ^ (e - e' - quotientExponent m e m' e').toNat / m') (Nat.mod_lt
          (m * 2 ^ (e - e' - quotientExponent m e m' e').toNat) hm')
      have hmagnitude : ((m * 2 ^ (e - e' - quotientExponent m e m' e').toNat / m' : ℕ) +
          (m * 2 ^ (e - e' - quotientExponent m e m' e').toNat % m' : ℕ) / m' : ℚ) *
            2 ^ quotientExponent m e m' e' = m * 2 ^ e / (m' * 2 ^ e') :=
        quotient_eq hm' (min_le_left _ _)
      have h := signed_roundWithAccuracy hlocates (quotientExponent_le_unit hm hm' e e') (s / s')
      rw [hmagnitude, ← Nat.shiftLeft_eq] at h
      exact h

/-! ## Operations on doubles -/

theorem roundsTo_mul (hx : IsSigned x s a) (hy : IsSigned y s' b) :
    RoundsTo (x * y) (s * s') (a * b) :=
  (signedRounded_mul hx hy).roundsTo

theorem roundsTo_div (hx : IsSigned x s a) (hy : IsSigned y s' b) (hb : 0 < b) :
    RoundsTo (x / y) (s / s') (a / b) :=
  (signedRounded_div hx hy hb).roundsTo

theorem roundsTo_add (hx : IsSigned x .positive a) (hy : IsSigned y .positive b) :
    RoundsTo (x + y) .positive (a + b) :=
  (signedRounded_add hx hy).roundsTo

theorem roundsTo_sub (hx : IsSigned x .positive a) (hy : IsSigned y .positive b) (hb : 0 < b)
    (hab : b ≤ a) : RoundsTo (x - y) .positive (a - b) :=
  (signedRounded_sub hx hy hb hab).roundsTo

end ItemMetrics.Double
