import ItemMetrics.Proofs.Double.Order

/-! # Equality of doubles

Finite doubles are equal when they stand for one rational number (`beq_iff`). Integers become equal
doubles when they have one and the same nearest double (`ofInt_beq_iff`). Below `2 ^ 53` that is the
integer itself, and no other integer has it (`SameDouble.eq_of_lt`). -/

namespace ItemMetrics.Double

open Float.Model Float.Model.UnpackedFloat

/-- The number that a sign and a magnitude make. -/
def signed : Sign → ℚ → ℚ
  | .positive, r => r
  | .negative, r => -r

/-- A double is finite and stands for a rational number. -/
def HasValue (x : Float) (q : ℚ) : Prop :=
  ∃ s r, IsSigned x s r ∧ signed s r = q

/-- A rational number that is an integer rounded to 53 bits, halves to the even mantissa. -/
def RoundedInt (n : ℤ) (q : ℚ) : Prop :=
  ∃ r, Rounded |(n : ℚ)| r ∧ signed (signOf n) r = q

/-- Two integers are rounded to one number. -/
def SameDouble (m n : ℤ) : Prop :=
  ∃ q, RoundedInt m q ∧ RoundedInt n q

variable {s s' : Sign} {u u' : UnpackedFloat} {a b r q q' : ℚ} {m m' : ℕ} {e e' : ℤ} {x y : Float}
  {k n : ℤ}

/-! ## Values -/

theorem abs_signed (h : 0 ≤ r) : |signed s r| = r := by
  cases s with
  | positive => exact abs_of_nonneg h
  | negative => exact (abs_neg r).trans (abs_of_nonneg h)

theorem signed_zero (s : Sign) : signed s 0 = 0 := by
  cases s with
  | positive => rfl
  | negative => exact neg_zero

theorem signed_eq_zero_iff : signed s r = 0 ↔ r = 0 := by
  cases s with
  | positive => rfl
  | negative => exact neg_eq_zero

theorem HasValue.unique (h : HasValue x q) (h' : HasValue x q') : q = q' := by
  obtain ⟨s, r, hr, rfl⟩ := h
  obtain ⟨s', r', hr', rfl⟩ := h'
  obtain ⟨rfl, rfl⟩ := Signed.unique hr hr'
  rfl

theorem isFinite_iff_hasValue : x.isFinite = true ↔ ∃ q, HasValue x q := by
  rw [isFinite_iff]
  constructor
  · rintro ⟨s, r, h⟩
    exact ⟨_, s, r, h, rfl⟩
  · rintro ⟨_, s, r, h, -⟩
    exact ⟨s, r, h⟩

theorem hasValue_zero : HasValue 0 0 :=
  ⟨_, 0, isSigned_zero, rfl⟩

theorem hasValue_one : HasValue 1 1 :=
  ⟨_, 1, isSigned_one, rfl⟩

/-! ## Equality -/

/-- A magnitude has one canonical form. -/
theorem Canonical.eq_iff (hc : Canonical m e) (hc' : Canonical m' e') :
    (m : ℚ) * 2 ^ e = m' * 2 ^ e' ↔ e = e' ∧ m = m' := by
  constructor
  · intro h
    have hle := mt (hc.lt_iff hc').mpr h.not_lt
    have hge := mt (hc'.lt_iff hc).mpr h.not_gt
    omega
  · rintro ⟨rfl, rfl⟩
    rfl

theorem compare_then_eq_iff : (compare e e').then (compare m m') = .eq ↔ e = e' ∧ m = m' := by
  rw [Ordering.then_eq_eq, Int.compare_eq_eq, Nat.compare_eq_eq]

theorem Signed.compare_eq_eq_iff (hu : Signed s u a) (hu' : Signed s' u' b) :
    u.compare u' = some .eq ↔ signed s a = signed s' b := by
  cases hu with
  | zero =>
    rw [signed_zero, eq_comm (a := 0), signed_eq_zero_iff]
    cases hu' with
    | zero => exact iff_of_true rfl rfl
    | @finite m' e' hm' hc' =>
      have hm' : (m' : ℚ) ≠ 0 := by exact_mod_cast hm'.ne'
      refine iff_of_false (fun h => ?_) (by positivity)
      cases s' <;> cases h
  | @finite m e hm hc =>
    have hpos : (0 : ℚ) < m * 2 ^ e := by
      have : (0 : ℚ) < m := by exact_mod_cast hm
      positivity
    cases hu' with
    | zero =>
      rw [signed_zero, signed_eq_zero_iff]
      refine iff_of_false (fun h => ?_) hpos.ne'
      cases s <;> cases h
    | @finite m' e' hm' hc' =>
      have hpos' : (0 : ℚ) < m' * 2 ^ e' := by
        have : (0 : ℚ) < m' := by exact_mod_cast hm'
        positivity
      cases s with
      | positive =>
        cases s' with
        | positive =>
          change some ((compare e e').then (compare m m')) = some .eq ↔ _
          rw [Option.some_inj, compare_then_eq_iff]
          exact (hc.eq_iff hc').symm
        | negative => exact iff_of_false (fun h => by cases h) (by dsimp only [signed]; linarith)
      | negative =>
        cases s' with
        | positive => exact iff_of_false (fun h => by cases h) (by dsimp only [signed]; linarith)
        | negative =>
          change some ((compare e e').then (compare m m')).swap = some .eq ↔ _
          rw [Option.some_inj, Ordering.swap_eq_eq, compare_then_eq_iff, signed, signed, neg_inj]
          exact (hc.eq_iff hc').symm

theorem beq_iff (hx : HasValue x a) (hy : HasValue y b) : (x == y) = true ↔ a = b := by
  obtain ⟨s, r, hr, rfl⟩ := hx
  obtain ⟨s', r', hr', rfl⟩ := hy
  rw [← Signed.compare_eq_eq_iff hr hr']
  change (x.toModel.unpack.compare y.toModel.unpack == some .eq) = true ↔ _
  exact beq_iff_eq

/-! ## Integers -/

theorem RoundedInt.unique (h : RoundedInt n q) (h' : RoundedInt n q') : q = q' := by
  obtain ⟨r, hr, rfl⟩ := h
  obtain ⟨r', hr', rfl⟩ := h'
  rw [hr.unique hr']

/-- The double that an integer becomes. -/
theorem hasValue_ofInt_iff (hn : |(n : ℚ)| ≤ 2 ^ (1023 : ℤ)) :
    HasValue (Float.ofInt n) q ↔ RoundedInt n q := by
  obtain ⟨r, hr, -, hrounded⟩ := (roundsTo_ofInt n).exists_le (by decide) le_rfl hn
  constructor
  · rintro ⟨s, r', hr', rfl⟩
    obtain ⟨rfl, rfl⟩ := Signed.unique hr hr'
    exact ⟨r, hrounded, rfl⟩
  · rintro ⟨r', hrounded', rfl⟩
    exact ⟨_, r, hr, by rw [hrounded.unique hrounded']⟩

theorem ofInt_beq_iff (hk : |(k : ℚ)| ≤ 2 ^ (1023 : ℤ)) (hn : |(n : ℚ)| ≤ 2 ^ (1023 : ℤ)) :
    (Float.ofInt k == Float.ofInt n) = true ↔ SameDouble k n := by
  obtain ⟨r, hr, -⟩ := (roundsTo_ofInt k).exists_le (by decide) le_rfl hk
  obtain ⟨r', hr', -⟩ := (roundsTo_ofInt n).exists_le (by decide) le_rfl hn
  have hvalue : HasValue (Float.ofInt k) (signed (signOf k) r) := ⟨_, r, hr, rfl⟩
  have hvalue' : HasValue (Float.ofInt n) (signed (signOf n) r') := ⟨_, r', hr', rfl⟩
  rw [beq_iff hvalue hvalue']
  have hint := (hasValue_ofInt_iff hk).mp hvalue
  have hint' := (hasValue_ofInt_iff hn).mp hvalue'
  constructor
  · intro heq
    exact ⟨_, hint, heq ▸ hint'⟩
  · rintro ⟨q, hq, hq'⟩
    rw [hint.unique hq, hint'.unique hq']

theorem signed_signOf (n : ℤ) : signed (signOf n) |(n : ℚ)| = n := by
  cases n with
  | ofNat n => exact abs_of_nonneg (by simp)
  | negSucc n =>
    have hneg : ((Int.negSucc n : ℤ) : ℚ) ≤ 0 := by exact_mod_cast (Int.negSucc_lt_zero n).le
    change -|((Int.negSucc n : ℤ) : ℚ)| = _
    rw [abs_of_nonpos hneg, neg_neg]

theorem RoundedInt.eq_of_lt (h : RoundedInt n q) (hn : |n| < 2 ^ 53) : q = n := by
  obtain ⟨r, hr, rfl⟩ := h
  have hcast : |(n : ℚ)| = n.natAbs := by rw [Nat.cast_natAbs, Int.cast_abs]
  rw [hcast] at hr
  rw [Int.abs_eq_natAbs] at hn
  rw [hr.eq_natCast (by omega), ← hcast, signed_signOf]

/-- From `2 ^ 53` on no integer is rounded below it. -/
theorem RoundedInt.le_abs (h : RoundedInt n q) (hn : 2 ^ 53 ≤ |n|) : 2 ^ 53 ≤ |q| := by
  obtain ⟨r, hr, rfl⟩ := h
  have hle : (2 : ℚ) ^ (53 : ℤ) ≤ |(n : ℚ)| := by
    rw [zpow_ofNat]
    exact_mod_cast hn
  have hpow := hr.pow_le (by decide) hle
  rw [zpow_ofNat] at hpow
  rwa [abs_signed hr.nonneg]

theorem SameDouble.refl (n : ℤ) : SameDouble n n := by
  obtain ⟨r, hr, -⟩ := roundsTo_ofInt n
  exact ⟨_, ⟨r, hr, rfl⟩, r, hr, rfl⟩

theorem SameDouble.symm (h : SameDouble k n) : SameDouble n k := by
  obtain ⟨q, hk, hn⟩ := h
  exact ⟨q, hn, hk⟩

/-- An integer below `2 ^ 53` shares its double with no other. -/
theorem SameDouble.eq_of_lt (h : SameDouble k n) (hn : |n| < 2 ^ 53) : k = n := by
  obtain ⟨q, hk, hq⟩ := h
  obtain rfl := hq.eq_of_lt hn
  have hlt : |k| < 2 ^ 53 := by
    by_contra! hge
    have hle := hk.le_abs hge
    have : (2 : ℤ) ^ 53 ≤ |n| := by exact_mod_cast hle
    omega
  exact_mod_cast (hk.eq_of_lt hlt).symm

end ItemMetrics.Double
