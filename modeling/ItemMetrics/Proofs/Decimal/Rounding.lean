import ItemMetrics.Decimal.Rounding
import ItemMetrics.Proofs.Double.Order

/-! # Rounding to decimal places

Rounding to an integer gives the nearest one, of two the even one (`nearestInteger_of_lt`), unless
there is no fraction anyway (`nearestInteger_of_ge`). Rounding to decimal places scales, rounds and
scales back; it may leave the value out of range, but not by more than a factor of two
(`exists_isSigned_roundTo`). -/

namespace ItemMetrics.Decimal

open Double Float.Model.UnpackedFloat

variable {s s' : Sign} {a f q v : ℚ} {x y : Float} {N : ℤ}

/-! ## Rounding to an integer -/

theorem isSigned_limit : IsSigned 4503599627370496 .positive (2 ^ 52) := by
  have h : Signed .positive (.finite .positive (2 ^ 52) 0 (by decide))
      ((2 ^ 52 : ℕ) * 2 ^ (0 : ℤ)) :=
    .finite ⟨by decide, by decide, .inr le_rfl⟩
  norm_num at h ⊢
  exact h

theorem nearestInteger_of_ge (hx : IsSigned x s a) (ha : 2 ^ 52 ≤ a) : nearestInteger x = x :=
  if_neg fun h => ha.not_gt ((lt_iff hx.abs isSigned_limit).mp h)

theorem nearestInteger_of_lt (hx : IsSigned x s a) (ha : a < 2 ^ 52) :
    ∃ n : ℕ, IsSigned (nearestInteger x) s n ∧ Nearest a n := by
  have hnonneg : 0 ≤ a := Signed.nonneg hx
  have hlimit : ((2 ^ 52 : ℕ) : ℚ) = 2 ^ 52 := by norm_num
  -- the sum has no room for a fraction
  obtain ⟨r, hr, -, hrounded⟩ := (roundsTo_add hx.abs isSigned_limit).exists_le (N := 53)
    (by decide) (by decide) (by norm_num; linarith)
  obtain ⟨n, rfl, hn⟩ := hrounded.exists_nearest (by linarith) (by linarith)
  rw [← hlimit] at hn
  obtain ⟨l, rfl, hl⟩ := hn.sub_of_even (by decide) hnonneg
  have hle : l ≤ 2 ^ 52 := hl.le (hlimit ▸ ha.le)
  -- and the difference is exact
  have hdifference := roundsTo_sub hr isSigned_limit (by positivity)
    (by rw [← hlimit, Nat.cast_add]; exact le_add_of_nonneg_right (Nat.cast_nonneg l))
  rw [← hlimit, Nat.cast_add, add_sub_cancel_left] at hdifference
  obtain ⟨r, hr, -, hrounded⟩ := hdifference.exists_le (N := 52) (by decide) (by decide)
    (by norm_num; exact_mod_cast hle)
  cases hrounded.eq_natCast (by omega)
  refine ⟨l, ?_, hl⟩
  unfold nearestInteger
  dsimp only
  rw [if_pos ((lt_iff hx.abs isSigned_limit).mpr ha)]
  split
  · next hbit =>
    obtain rfl := hx.negative_iff.mp hbit
    exact hr.neg
  · next hbit =>
    cases s with
    | negative => exact absurd (hx.negative_iff.mpr rfl) hbit
    | positive => exact hr

/-- Rounding to an integer crosses no power of two from one half on, and below it leaves zero. -/
theorem exists_isSigned_nearestInteger (hx : IsSigned x s a) :
    ∃ r, IsSigned (nearestInteger x) s r ∧ (a ≤ 1 / 2 → r = 0) ∧
      ∀ k : ℕ, a ≤ 2 ^ k → r ≤ 2 ^ k := by
  rcases lt_or_ge a (2 ^ 52) with ha | ha
  · obtain ⟨n, hn, hnearest⟩ := nearestInteger_of_lt hx ha
    refine ⟨n, hn, fun hhalf => ?_, fun k hk => ?_⟩
    · have : n ≤ 0 := hnearest.le_of_even .zero (by simpa using hhalf)
      exact_mod_cast Nat.le_zero.mp this
    · have : n ≤ 2 ^ k := hnearest.le (by simpa using hk)
      exact_mod_cast this
  · rw [nearestInteger_of_ge hx ha]
    exact ⟨a, hx, fun hhalf => by linarith, fun _ => id⟩

/-! ## Rounding to decimal places -/

/-- Scaling back undoes the scaling up to a factor of two. -/
theorem exists_isSigned_div (hx : IsSigned x s q) (hy : IsSigned y s' f) (hf : 0 < f) {t : Sign}
    (hscaled : IsSigned (x * y) t a) (hlow : -1074 ≤ N) (hup : N ≤ 1023) (hq : 2 * q ≤ 2 ^ N) :
    ∃ r, IsSigned (nearestInteger (x * y) / y) (t / s') r ∧ r ≤ 2 ^ N := by
  obtain ⟨r, hr, hzero, hpow⟩ := exists_isSigned_nearestInteger hscaled
  suffices hle : r / f ≤ 2 ^ N by
    obtain ⟨r', hr', hle', -⟩ := (roundsTo_div hr hy hf).exists_le hlow hup hle
    exact ⟨r', hr', hle'⟩
  rcases le_or_gt a (1 / 2) with ha | ha
  · rw [hzero ha, zero_div]
    positivity
  · -- the scaled value lies between powers of two, the exact product above the lower one
    obtain ⟨n, hn, hn'⟩ := exists_mem_Ioc_zpow (by linarith : 0 < a) (one_lt_two : (1 : ℚ) < 2)
    have hhalf : (2 : ℚ) ^ (-1 : ℤ) < 2 ^ (n + 1) := by
      norm_num at ha ⊢
      linarith
    have hnonneg := (zpow_lt_zpow_iff_right₀ one_lt_two).mp hhalf
    have hproduct : 2 ^ n < q * f := (roundsTo_mul hx hy).pow_lt hscaled (by omega) hn
    have hcast : ((n + 1).toNat : ℤ) = n + 1 := Int.toNat_of_nonneg (by omega)
    rw [← hcast, zpow_natCast] at hn'
    have hr := hpow _ hn'
    rw [← zpow_natCast, hcast, zpow_add_one₀ two_ne_zero] at hr
    rw [div_le_iff₀ hf]
    calc r ≤ 2 ^ n * 2 := hr
      _ ≤ q * f * 2 := by linarith
      _ = 2 * q * f := by ring
      _ ≤ 2 ^ N * f := mul_le_mul_of_nonneg_right hq hf.le

/-- A value stays finite when it is rounded to decimal places, with at most twice the bound that it
had. -/
theorem exists_isSigned_roundTo (hx : IsSigned x s q) (hlow : -1074 ≤ N) (hup : N ≤ 1022)
    (hq : q ≤ 2 ^ N) (places : Option ℤ) :
    ∃ t r, IsSigned (roundTo x places) t r ∧ r ≤ 2 ^ (N + 1) := by
  have hdouble : 2 * q ≤ 2 ^ (N + 1) := by
    rw [zpow_add_one₀ two_ne_zero]
    linarith
  have hself : q ≤ 2 ^ (N + 1) := by
    have : 0 ≤ q := Signed.nonneg hx
    linarith
  cases places with
  | none => exact ⟨s, q, hx, hself⟩
  | some places =>
    unfold roundTo
    dsimp only
    split
    · exact ⟨_, 0, isSigned_zero, by positivity⟩
    · next hfactor =>
      split
      · next hfinite =>
        obtain ⟨s', f, hf⟩ := exists_isSigned_of_mul hx hfinite
        obtain ⟨t, a, ha⟩ := isFinite_iff.mp hfinite
        have hne : f ≠ 0 := mt (beq_zero_iff hf).mpr hfactor
        have hpos : 0 < f := lt_of_le_of_ne (Signed.nonneg hf) hne.symm
        obtain ⟨r, hr, hle⟩ :=
          exists_isSigned_div hx hf hpos ha (by omega) (by omega) hdouble
        exact ⟨_, r, hr, hle⟩
      · exact ⟨s, q, hx, hself⟩

end ItemMetrics.Decimal
