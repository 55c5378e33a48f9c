import ItemMetrics.Proofs.Double.Nearest

/-! # Mantissas and what is cut off them

A mantissa is shortened bit by bit, and two residual bits keep where the exact magnitude lies above
it (`Locates`). What comes of this is the magnitude rounded to the nearest double, in its one
canonical form (`signed_roundWithAccuracy`). -/

namespace ItemMetrics.Double

open Float.Model Float.Model.UnpackedFloat

/-- The residual bits of a mantissa tell where `w` lies between the mantissa and the next one. -/
inductive Locates : ExtendedMantissa → ℚ → Prop where
  | exact (m : ℕ) : Locates ⟨m, false, false⟩ m
  | below {m : ℕ} {w : ℚ} : m < w → w < m + 1 / 2 → Locates ⟨m, false, true⟩ w
  | half {m : ℕ} {w : ℚ} : w = m + 1 / 2 → Locates ⟨m, true, false⟩ w
  | above {m : ℕ} {w : ℚ} : m + 1 / 2 < w → w < m + 1 → Locates ⟨m, true, true⟩ w

namespace Locates

variable {em : ExtendedMantissa} {w : ℚ}

theorem le (h : Locates em w) : em.mantissa ≤ w := by
  cases h <;> dsimp only at * <;> linarith

theorem lt (h : Locates em w) : w < em.mantissa + 1 := by
  cases h <;> dsimp only at * <;> linarith

theorem nearest (h : Locates em w) : Nearest w em.roundedMantissa := by
  cases h with
  | exact m => exact .natCast m
  | @below m w hlow hup =>
    change Nearest w m
    refine ⟨by linarith, hup.le, ?_⟩
    rintro (h | h) <;> linarith
  | @half m w heq =>
    change Nearest w (m + m % 2)
    rcases Nat.mod_two_eq_zero_or_one m with hm | hm
    · rw [hm, Nat.add_zero]
      refine ⟨by linarith, heq.le, fun _ => Nat.even_iff.mpr hm⟩
    · rw [hm]
      refine ⟨by push_cast; linarith, by push_cast; linarith, fun _ => ?_⟩
      exact Nat.even_add_one.mpr (Nat.not_even_iff.mpr hm)
  | @above m w hlow hup =>
    change Nearest w (m + 1)
    refine ⟨by push_cast; linarith, by push_cast; linarith, ?_⟩
    push_cast
    rintro (h | h) <;> linarith

/-- One bit less: the bits that were cut off before are now below half. -/
theorem shiftRightOne (h : Locates em w) : Locates em.shiftRightOne (w / 2) := by
  have hlast : em.mantissa % 2 = 0 ∨ em.mantissa % 2 = 1 := Nat.mod_two_eq_zero_or_one _
  have hmantissa : (em.mantissa : ℚ) = 2 * (em.mantissa / 2 : ℕ) + (em.mantissa % 2 : ℕ) := by
    exact_mod_cast (Nat.div_add_mod em.mantissa 2).symm
  rcases hlast with hlast | hlast
  all_goals
    rw [hlast] at hmantissa
    push_cast at hmantissa
    unfold ExtendedMantissa.shiftRightOne
    rw [hlast]
  · cases h with
    | exact m =>
      dsimp only at *
      have hw : (m : ℚ) / 2 = (m / 2 : ℕ) := by linarith
      rw [hw]
      exact .exact _
    | below hlow hup => exact .below (by linarith) (by linarith)
    | half heq => exact .below (by linarith) (by linarith)
    | above hlow hup => exact .below (by linarith) (by linarith)
  · cases h with
    | exact m => exact .half (by linarith)
    | below hlow hup => exact .above (by linarith) (by linarith)
    | half heq => exact .above (by linarith) (by linarith)
    | above hlow hup => exact .above (by linarith) (by linarith)

theorem shiftRight (h : Locates em w) (k : ℕ) : Locates (em >>> k) (w / 2 ^ k) := by
  induction k with
  | zero =>
    rw [pow_zero, div_one]
    exact h
  | succ k ih =>
    rw [pow_succ, ← div_div]
    exact ih.shiftRightOne

theorem ofFraction (q : ℕ) {num den : ℕ} (h : num < den) :
    Locates (.ofMantissaAndAccuracy q (accuracyOfFraction num den)) (q + num / den) := by
  have hden : (0 : ℚ) < den := by exact_mod_cast Nat.zero_lt_of_lt h
  have hone : (num : ℚ) / den < 1 := (div_lt_one hden).mpr (by exact_mod_cast h)
  unfold accuracyOfFraction
  split
  · next hzero =>
    rw [hzero, Nat.cast_zero, zero_div, add_zero]
    exact .exact q
  · next hzero =>
    have hpos : (0 : ℚ) < num / den := div_pos (by exact_mod_cast Nat.pos_of_ne_zero hzero) hden
    cases hcompare : compare (2 * num) den with
    | lt =>
      have hlt : (2 : ℚ) * num < den := by exact_mod_cast Nat.compare_eq_lt.mp hcompare
      have : (num : ℚ) / den < 1 / 2 := by rw [div_lt_iff₀ hden]; linarith
      exact .below (by linarith) (by linarith)
    | eq =>
      have heq : (2 : ℚ) * num = den := by exact_mod_cast Nat.compare_eq_eq.mp hcompare
      have : (num : ℚ) / den = 1 / 2 := by rw [div_eq_iff hden.ne']; linarith
      exact .half (by linarith)
    | gt =>
      have hgt : (den : ℚ) < 2 * num := by exact_mod_cast Nat.compare_eq_gt.mp hcompare
      have : 1 / 2 < (num : ℚ) / den := by rw [lt_div_iff₀ hden]; linarith
      exact .above (by linarith) (by linarith)

end Locates

/-! ## Canonical forms -/

/-- A mantissa and an exponent in the form in which a double is kept. -/
structure Canonical (m : ℕ) (e : ℤ) : Prop where
  lt : m < 2 ^ 53
  smallest : -1074 ≤ e
  normal : e = -1074 ∨ 2 ^ 52 ≤ m

/-- A number in canonical form, with a sign and a magnitude. -/
inductive Signed (s : Sign) : UnpackedFloat → ℚ → Prop where
  | zero : Signed s (.zero s) 0
  | finite {m : ℕ} {e : ℤ} {h : 0 < m} : Canonical m e → Signed s (.finite s m e h) (m * 2 ^ e)

variable {m : ℕ} {e t : ℤ} {w : ℚ} {acc : Accuracy} {s : Sign}

/-- The unit at which a mantissa is rounded. -/
def unit (m : ℕ) (e : ℤ) : ℤ := Format.binary64.targetExponent (totalExponent m e)

theorem unit_eq (m : ℕ) (e : ℤ) : unit m e = max (m.log2 + 1 + e - 53) (-1074) := rfl

theorem shiftToTargetExponent_eq (h : e ≤ unit m e) :
    shiftToTargetExponent Format.binary64 m e acc =
      (ExtendedMantissa.ofMantissaAndAccuracy m acc >>> (unit m e - e).toNat, unit m e) := by
  have hsub : ((unit m e - e).toNat : ℤ) = unit m e - e := Int.toNat_of_nonneg (by omega)
  unfold shiftToTargetExponent shiftToExponent
  rw [← unit]
  dsimp only
  rw [hsub]
  congr 1
  omega

/-- A canonical mantissa is not shortened. -/
theorem Canonical.unit_le (h : Canonical m e) : unit m e ≤ e := by
  rw [unit_eq]
  rcases Nat.eq_zero_or_pos m with rfl | hm
  · have := h.smallest
    simp
    omega
  · have hlog := (Nat.log2_lt hm.ne').mpr h.lt
    have := h.smallest
    omega

theorem Canonical.shiftToTargetExponent_eq (h : Canonical m e) :
    shiftToTargetExponent Format.binary64 m e .exact = (⟨m, false, false⟩, e) := by
  have hunit := h.unit_le
  have hzero : (unit m e - e).toNat = 0 := by omega
  unfold shiftToTargetExponent shiftToExponent
  rw [← unit]
  dsimp only
  rw [hzero]
  simp [ExtendedMantissa.ofMantissaAndAccuracy]
  rfl

/-! ## Rounding -/

theorem mantissa_ofMantissaAndAccuracy (m : ℕ) (acc : Accuracy) :
    (ExtendedMantissa.ofMantissaAndAccuracy m acc).mantissa = m := by
  unfold ExtendedMantissa.ofMantissaAndAccuracy
  split <;> rfl

theorem lt_two_zpow_log2 (m : ℕ) : (m : ℚ) + 1 ≤ 2 ^ ((m.log2 : ℤ) + 1) := by
  have h : m + 1 ≤ 2 ^ (m.log2 + 1) := Nat.lt_log2_self
  exact_mod_cast h

theorem two_zpow_log2_le (hm : 0 < m) : (2 : ℚ) ^ (m.log2 : ℤ) ≤ m := by
  have h : 2 ^ m.log2 ≤ m := Nat.log2_self_le hm.ne'
  exact_mod_cast h

/-- The unit of a magnitude leaves 53 bits, or it is the smallest. -/
theorem unit_bounds (hlow : m ≤ w) (hup : w < m + 1) (h : e ≤ unit m e) :
    (unit m e = -1074 ∨ 2 ^ (unit m e + 52) ≤ w * 2 ^ e) ∧ w * 2 ^ e < 2 ^ (unit m e + 53) := by
  have hpos : (0 : ℚ) < 2 ^ e := by positivity
  constructor
  · by_cases hunit : unit m e = -1074
    · exact .inl hunit
    · rw [unit_eq] at hunit h ⊢
      have hm : 0 < m := by
        by_contra hzero
        rw [Nat.eq_zero_of_not_pos hzero] at hunit h
        simp at hunit h
        omega
      refine .inr ?_
      calc (2 : ℚ) ^ (max (m.log2 + 1 + e - 53) (-1074) + 52) = 2 ^ ((m.log2 : ℤ) + e) := by
            congr 1
            omega
        _ = 2 ^ (m.log2 : ℤ) * 2 ^ e := zpow_add₀ two_ne_zero _ _
        _ ≤ w * 2 ^ e :=
            mul_le_mul_of_nonneg_right ((two_zpow_log2_le hm).trans hlow) hpos.le
  · rw [unit_eq]
    calc w * 2 ^ e < 2 ^ ((m.log2 : ℤ) + 1) * 2 ^ e :=
          mul_lt_mul_of_pos_right (hup.trans_le (lt_two_zpow_log2 m)) hpos
      _ = 2 ^ ((m.log2 : ℤ) + 1 + e) := (zpow_add₀ two_ne_zero _ _).symm
      _ ≤ 2 ^ (max (m.log2 + 1 + e - 53) (-1074) + 53) :=
          zpow_le_zpow_right₀ one_le_two (by omega)

/-- A mantissa that is rounded up to one more bit loses it again. -/
theorem shiftToTargetExponent_of_carry (h : -1074 ≤ t) :
    shiftToTargetExponent Format.binary64 (2 ^ 53) t .exact = (⟨2 ^ 52, false, false⟩, t + 1) := by
  have hunit : unit (2 ^ 53) t = t + 1 := by
    rw [unit_eq, Nat.log2_two_pow]
    omega
  rw [shiftToTargetExponent_eq (by omega), hunit]
  have hone : (t + 1 - t).toNat = 1 := by omega
  rw [hone]
  rfl

/-- A rounded mantissa is brought to its canonical form. -/
theorem signed_of_rounded {n : ℕ} (hn : n ≤ 2 ^ 53) (ht : -1074 ≤ t)
    (hnormal : t = -1074 ∨ 2 ^ 52 ≤ n) :
    ∀ em e', shiftToTargetExponent Format.binary64 n t .exact = (em, e') →
      Signed s (if h : em.mantissa = 0 then .zero s
        else .finite s em.mantissa e' (Nat.pos_of_ne_zero h)) (n * 2 ^ t) := by
  intro em e' hshift
  rcases hn.lt_or_eq with hlt | rfl
  · have hcanonical : Canonical n t := ⟨hlt, ht, hnormal⟩
    rw [hcanonical.shiftToTargetExponent_eq] at hshift
    cases hshift
    by_cases hzero : n = 0
    · rw [dif_pos hzero, hzero, Nat.cast_zero, zero_mul]
      exact .zero
    · rw [dif_neg hzero]
      exact .finite hcanonical
  · rw [shiftToTargetExponent_of_carry ht] at hshift
    cases hshift
    have hmagnitude : ((2 ^ 53 : ℕ) : ℚ) * 2 ^ t = (2 ^ 52 : ℕ) * 2 ^ (t + 1) := by
      rw [zpow_add_one₀ two_ne_zero]
      push_cast
      ring
    rw [hmagnitude, dif_neg (by decide)]
    exact .finite ⟨by decide, by omega, .inr le_rfl⟩

/-- **Rounding is to the nearest double.** If a mantissa and its accuracy locate `w`, and the
exponent is not above the unit, the result is `w * 2 ^ e` rounded. -/
theorem signed_roundWithAccuracy (hw : Locates (.ofMantissaAndAccuracy m acc) w)
    (h : e ≤ unit m e) (s : Sign) :
    ∃ r, Rounded (w * 2 ^ e) r ∧ Signed s (roundWithAccuracy Format.binary64 s m e acc) r := by
  have hlow := hw.le
  have hup := hw.lt
  rw [mantissa_ofMantissaAndAccuracy] at hlow hup
  obtain ⟨hunit, hlt⟩ := unit_bounds hlow hup h
  have hsmallest : -1074 ≤ unit m e := le_max_right _ _
  have hquotient : w * 2 ^ e / 2 ^ unit m e = w / 2 ^ (unit m e - e).toNat := by
    have hsub : ((unit m e - e).toNat : ℤ) = unit m e - e := Int.toNat_of_nonneg (by omega)
    rw [← zpow_natCast, hsub, zpow_sub₀ two_ne_zero, div_div_eq_mul_div]
  have hnearest := (hw.shiftRight (unit m e - e).toNat).nearest
  rw [← hquotient] at hnearest
  have hpos : (0 : ℚ) < 2 ^ unit m e := by positivity
  have hcarry : (ExtendedMantissa.ofMantissaAndAccuracy m acc >>>
      (unit m e - e).toNat).roundedMantissa ≤ 2 ^ 53 := by
    refine hnearest.le ((div_le_iff₀ hpos).mpr ?_)
    rw [add_comm, zpow_add₀ two_ne_zero] at hlt
    exact_mod_cast hlt.le
  refine ⟨_, .intro hsmallest hunit hlt hnearest, ?_⟩
  unfold roundWithAccuracy
  rw [shiftToTargetExponent_eq h]
  dsimp only
  refine signed_of_rounded hcarry hsmallest (hunit.imp_right fun hnormal => ?_) _ _ rfl
  refine hnearest.ge ((le_div_iff₀ hpos).mpr ?_)
  rw [add_comm, zpow_add₀ two_ne_zero] at hnormal
  exact_mod_cast hnormal

end ItemMetrics.Double
