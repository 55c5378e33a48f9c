import Mathlib.Algebra.Order.Field.Power
import Mathlib.Data.Nat.Log
import Mathlib.Data.Rat.Cast.Order
import Mathlib.Tactic.FieldSimp
import Mathlib.Tactic.Linarith
import Mathlib.Tactic.Positivity
import Mathlib.Tactic.Ring

/-! # Rounding to the nearest double

Magnitudes are rational numbers. A magnitude is rounded to the nearest multiple of a unit, halves to
the even one (`Nearest`), and the unit is the power of two that leaves 53 bits, or the smallest there
is (`Rounded`). There is one way to round it (`Rounded.unique`). No power of two is crossed on the
way (`Rounded.le_pow`, `Rounded.pow_le`), and below `2 ^ 53` a natural number stays what it is
(`Rounded.eq_natCast`). -/

namespace ItemMetrics.Double

/-- The natural number nearest to `w`, of two the even one. -/
structure Nearest (w : ℚ) (n : ℕ) : Prop where
  lower : n - 1 / 2 ≤ w
  upper : w ≤ n + 1 / 2
  even : w = n + 1 / 2 ∨ w = n - 1 / 2 → Even n

/-- A magnitude rounded to 53 bits, or to fewer where the unit would be less than `2 ^ -1074`. There
is no largest one. -/
inductive Rounded (v : ℚ) : ℚ → Prop where
  | intro {t : ℤ} {n : ℕ} : -1074 ≤ t → t = -1074 ∨ 2 ^ (t + 52) ≤ v → v < 2 ^ (t + 53) →
    Nearest (v / 2 ^ t) n → Rounded v (n * 2 ^ t)

namespace Nearest

variable {w : ℚ} {n k : ℕ}

theorem natCast (n : ℕ) : Nearest n n := by
  refine ⟨by linarith, by linarith, ?_⟩
  rintro (h | h) <;> linarith

/-- Up to half a unit above an even number that number is not exceeded. -/
theorem le_of_even (h : Nearest w n) (hk : Even k) (hw : w ≤ k + 1 / 2) : n ≤ k := by
  by_contra! hlt
  have hn : (k : ℚ) + 1 ≤ n := mod_cast hlt
  have heq : w = n - 1 / 2 := le_antisymm (by linarith) h.lower
  have hnk : n = k + 1 := by
    have : (n : ℚ) = k + 1 := by linarith
    exact_mod_cast this
  have heven := h.even (.inr heq)
  rw [hnk] at heven
  exact (Nat.even_add_one.mp heven) hk

theorem le (h : Nearest w n) (hw : w ≤ k) : n ≤ k := by
  have : (n : ℚ) < k + 1 := by linarith [h.lower]
  exact Nat.lt_succ_iff.mp (by exact_mod_cast this)

theorem ge (h : Nearest w n) (hw : k ≤ w) : k ≤ n := by
  have : (k : ℚ) < n + 1 := by linarith [h.upper]
  exact Nat.lt_succ_iff.mp (by exact_mod_cast this)

theorem le_of_nearest (h : Nearest w n) (h' : Nearest w k) : n ≤ k := by
  rcases h'.upper.lt_or_eq with hlt | heq
  · have : (n : ℚ) < k + 1 := by linarith [h.lower]
    exact Nat.lt_succ_iff.mp (by exact_mod_cast this)
  · exact h.le_of_even (h'.even (.inl heq)) heq.le

theorem unique (h : Nearest w n) (h' : Nearest w k) : n = k :=
  le_antisymm (h.le_of_nearest h') (h'.le_of_nearest h)

/-- An even number can be taken off on both sides. -/
theorem sub_of_even (h : Nearest (w + k) n) (hk : Even k) (hw : 0 ≤ w) :
    ∃ l, n = k + l ∧ Nearest w l := by
  obtain ⟨l, rfl⟩ := Nat.exists_eq_add_of_le (h.ge (le_add_of_nonneg_left hw))
  have hlower := h.lower
  have hupper := h.upper
  have heven := h.even
  rw [Nat.even_add, iff_true_left hk] at heven
  rw [Nat.cast_add] at hlower hupper heven
  refine ⟨l, rfl, by linarith, by linarith, fun heq => heven (heq.imp ?_ ?_)⟩ <;>
  · intro heq
    linarith

end Nearest

namespace Rounded

variable {v r : ℚ} {N : ℤ}

/-- A power of two is a multiple of each unit that is not larger. -/
theorem pow_eq_mul {t : ℤ} (h : t ≤ N) : (2 : ℚ) ^ N = (2 ^ (N - t).toNat : ℕ) * 2 ^ t := by
  have hsub : ((N - t).toNat : ℤ) = N - t := Int.toNat_of_nonneg (by omega)
  rw [Nat.cast_pow, Nat.cast_ofNat, ← zpow_natCast, hsub, ← zpow_add₀ two_ne_zero]
  congr 1
  omega

theorem zero : Rounded 0 0 := by
  have h : Rounded 0 ((0 : ℕ) * 2 ^ (-1074 : ℤ)) :=
    .intro le_rfl (.inl rfl) (by positivity) (by simpa using Nearest.natCast 0)
  simpa using h

theorem nonneg (h : Rounded v r) : 0 ≤ r := by
  obtain ⟨-, -, -, -⟩ := h
  positivity

/-- A unit that leaves 53 bits is not larger than one that holds the magnitude. -/
theorem unit_le {t t' : ℤ} (hunit : t = -1074 ∨ 2 ^ (t + 52) ≤ v) (ht' : -1074 ≤ t')
    (hbound : v < 2 ^ (t' + 53)) : t ≤ t' := by
  rcases hunit with rfl | hunit
  · exact ht'
  · have := (zpow_lt_zpow_iff_right₀ one_lt_two).mp (hunit.trans_lt hbound)
    omega

theorem unique {r' : ℚ} (h : Rounded v r) (h' : Rounded v r') : r = r' := by
  obtain @⟨t, n, ht, hunit, hbound, hn⟩ := h
  obtain @⟨t', n', ht', hunit', hbound', hn'⟩ := h'
  obtain rfl : t = t' := le_antisymm (unit_le hunit ht' hbound') (unit_le hunit' ht hbound)
  rw [hn.unique hn']

theorem le_pow (h : Rounded v r) (hN : -1074 ≤ N) (hv : v ≤ 2 ^ N) : r ≤ 2 ^ N := by
  obtain @⟨t, n, -, hunit, -, hn⟩ := h
  have hpos : (0 : ℚ) < 2 ^ t := by positivity
  rcases le_or_gt t N with ht | ht
  · rw [pow_eq_mul ht] at hv ⊢
    have hle := hn.le ((div_le_iff₀ hpos).mpr hv)
    exact mul_le_mul_of_nonneg_right (by exact_mod_cast hle) hpos.le
  · have hv' : (2 : ℚ) ^ (t + 52) ≤ 2 ^ N := (hunit.resolve_left (by omega)).trans hv
    have := (zpow_le_zpow_iff_right₀ one_lt_two).mp hv'
    omega

theorem pow_le (h : Rounded v r) (hN : -1074 ≤ N) (hv : 2 ^ N ≤ v) : 2 ^ N ≤ r := by
  obtain @⟨t, n, -, hunit, -, hn⟩ := h
  have hpos : (0 : ℚ) < 2 ^ t := by positivity
  rcases le_or_gt t N with ht | ht
  · rw [pow_eq_mul ht] at hv ⊢
    have hle := hn.ge ((le_div_iff₀ hpos).mpr hv)
    exact mul_le_mul_of_nonneg_right (by exact_mod_cast hle) hpos.le
  · have hv' := hunit.resolve_left (by omega)
    have ht' : t ≤ t + 52 := by omega
    rw [pow_eq_mul ht'] at hv'
    have hle := hn.ge ((le_div_iff₀ hpos).mpr hv')
    calc (2 : ℚ) ^ N ≤ 2 ^ (t + 52) := zpow_le_zpow_right₀ one_le_two (by omega)
      _ = (2 ^ (t + 52 - t).toNat : ℕ) * 2 ^ t := pow_eq_mul ht'
      _ ≤ n * 2 ^ t := mul_le_mul_of_nonneg_right (by exact_mod_cast hle) hpos.le

/-- Just below `2 ^ 53` the unit is one. -/
theorem exists_nearest (h : Rounded v r) (hlow : 2 ^ 52 ≤ v) (hup : v < 2 ^ 53) :
    ∃ n : ℕ, r = n ∧ Nearest v n := by
  obtain @⟨t, n, -, hunit, hbound, hn⟩ := h
  have hpow52 : ((2 : ℚ) ^ 52) = 2 ^ (52 : ℤ) := (zpow_natCast 2 52).symm
  have hpow53 : ((2 : ℚ) ^ 53) = 2 ^ (53 : ℤ) := (zpow_natCast 2 53).symm
  rw [hpow52] at hlow
  rw [hpow53] at hup
  have hlt := (zpow_lt_zpow_iff_right₀ one_lt_two).mp (hlow.trans_lt hbound)
  have hgt := (zpow_lt_zpow_iff_right₀ one_lt_two).mp
    ((hunit.resolve_left (by omega)).trans_lt hup)
  obtain rfl : t = 0 := by omega
  rw [zpow_zero, div_one] at hn
  exact ⟨n, by rw [zpow_zero, mul_one], hn⟩

theorem eq_natCast {k : ℕ} (h : Rounded k r) (hk : k < 2 ^ 53) : r = k := by
  obtain @⟨t, n, -, hunit, -, hn⟩ := h
  have ht : t ≤ 0 := by
    rcases hunit with rfl | hunit
    · decide
    · have hk : (k : ℚ) < 2 ^ (53 : ℤ) := by
        rw [← Nat.cast_ofNat, zpow_ofNat]
        exact_mod_cast hk
      have := (zpow_lt_zpow_iff_right₀ one_lt_two).mp (hunit.trans_lt hk)
      omega
  have hpos : (2 : ℚ) ^ t ≠ 0 := by positivity
  have hone := pow_eq_mul ht
  have hk : (k : ℚ) = (k * 2 ^ (0 - t).toNat : ℕ) * 2 ^ t := by
    rw [Nat.cast_mul, mul_assoc, ← hone, zpow_zero, mul_one]
  rw [hk, mul_div_cancel_right₀ _ hpos] at hn
  rw [hk, le_antisymm (hn.le le_rfl) (hn.ge le_rfl)]

end Rounded
end ItemMetrics.Double
