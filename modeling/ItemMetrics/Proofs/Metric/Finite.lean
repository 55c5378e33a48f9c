import ItemMetrics.Proofs.Decimal.Rounding
import ItemMetrics.Proofs.Json.Number
import ItemMetrics.Proofs.Metric.Quotient

/-! # Finite values

A value that is not finite has no number in JSON. What a metric computes from finite values is finite
as long as what it divides is not too large for what it divides by (`Metric.finite_of_compute`), and
so it is for counts and truth values divided by each other or by a constant that is not tiny
(`Metric.OfCounts.not_overflows`). -/

namespace ItemMetrics

open Double Float.Model.UnpackedFloat

/-- A number, a truth value or a text. -/
inductive Json.Plain : Json → Prop where
  | bool (b : Bool) : Plain (.bool b)
  | number (n : Json.Number) : Plain (.number n)
  | string (s : String) : Plain (.string s)

/-- Neither infinite nor no number at all. -/
def Scalar.Finite : Scalar → Prop
  | .float x => x.isFinite = true
  | .integer _ | .boolean _ | .text _ => True

/-- What a metric is that names no others: a count or a truth value. -/
def Scalar.Whole : Scalar → Prop
  | .integer _ | .boolean _ => True
  | .float _ | .text _ => False

/-- A metric divides finite numbers whose quotient is more than `2 ^ 1022`. -/
inductive Metric.Overflows (m : Metric) (read : String → Scalar) : Prop where
  | intro {x y : Float} {s s' : Sign} {a b : ℚ} : m.Divides read x y → IsSigned x s a →
    IsSigned y s' b → 2 ^ (1022 : ℤ) * b < a → Overflows m read

variable {value : Scalar} {x y : Float} {m : Metric} {read : String → Scalar}

/-! ## Values as numbers -/

namespace Scalar

theorem Finite.plain_toJson (h : value.Finite) : value.toJson.Plain := by
  cases value with
  | integer i => exact .number _
  | boolean b => exact .bool b
  | text s => exact .string s
  | float x =>
    have hjson : toJson (.float x) = .number (.float x h) := by
      simp only [toJson, Json.Number.ofFloat?, dif_pos (show x.isFinite = true from h)]
    exact hjson ▸ .number _

theorem toJson_of_not_finite (h : ¬ value.Finite) : value.toJson = .null := by
  cases value with
  | integer | boolean | text => exact absurd trivial h
  | float x => simp only [toJson, Json.Number.ofFloat?, dif_neg (show ¬ x.isFinite = true from h)]

theorem finite_of_ofJson? {json : Json} (h : ofJson? json = some value) : value.Finite := by
  unfold ofJson? at h
  split at h
  · cases h
    trivial
  · next n =>
    split at h
    · cases h
      trivial
    · cases h
      exact isFinite_iff.mpr n.exists_isSigned_toFloat
  · cases h
    trivial
  · cases h

theorem Whole.exists_isSigned (h : value.Whole) (hx : value.toFloat? = some x) :
    ∃ s a, IsSigned x s a ∧ a ≤ 2 ^ (63 : ℤ) ∧ (value.isTruthy = true → 1 ≤ a) := by
  cases value with
  | integer i =>
    cases hx
    have hlow := i.le_toInt
    have hup := i.toInt_lt
    have hi : |(i.toInt : ℚ)| ≤ 2 ^ (63 : ℤ) :=
      abs_intCast_le (k := 63) (by omega) (by omega)
    obtain ⟨s, a, ha, hle, hone⟩ := exists_isSigned_ofInt (by decide) (by decide) hi
    refine ⟨s, a, ha, hle, fun htrue => hone fun hzero => ?_⟩
    have : i = 0 := Int64.toInt_inj.mp hzero
    subst this
    cases htrue
  | boolean b =>
    cases hx
    cases b with
    | false => exact ⟨_, 0, isSigned_zero, by positivity, fun htrue => by cases htrue⟩
    | true => exact ⟨_, 1, isSigned_one, one_le_zpow₀ one_le_two (by decide), fun _ => le_rfl⟩
  | float | text => exact h.elim

theorem Finite.exists_isSigned (h : value.Finite) (hx : value.toFloat? = some x) :
    ∃ s a, IsSigned x s a ∧ (value.isTruthy = true → 0 < a) := by
  cases value with
  | integer | boolean =>
    obtain ⟨s, a, ha, -, hone⟩ := Whole.exists_isSigned (by trivial) hx
    exact ⟨s, a, ha, fun htrue => zero_lt_one.trans_le (hone htrue)⟩
  | float x =>
    cases hx
    obtain ⟨s, a, ha⟩ := isFinite_iff.mp h
    refine ⟨s, a, ha, fun htrue => lt_of_le_of_ne (Signed.nonneg ha) fun hzero => ?_⟩
    have hbeq := (beq_zero_iff ha).mpr hzero.symm
    simp [isTruthy, bne, hbeq] at htrue
  | text => cases hx

end Scalar

namespace Metric

/-! ## What a metric computes -/

theorem Divides.exists_isSigned (h : m.Divides read x y) (hread : ∀ key, (read key).Finite) :
    ∃ s a s' b, IsSigned x s a ∧ IsSigned y s' b ∧ 0 < b := by
  cases h with
  | @ratio n d _ _ _ _ _ htrue hx hy =>
    obtain ⟨s, a, ha, -⟩ := (hread n).exists_isSigned hx
    obtain ⟨s', b, hb, hpos⟩ := (hread d).exists_isSigned hy
    exact ⟨s, a, s', b, ha, hb, hpos htrue⟩
  | @rate k _ per _ _ hx _ hne =>
    obtain ⟨s, a, ha, -⟩ := (hread k).exists_isSigned hx
    obtain ⟨s', b, hb⟩ := per.exists_isSigned_toFloat
    refine ⟨s, a, s', b, ha, hb, lt_of_le_of_ne (Signed.nonneg hb) fun hzero => ?_⟩
    have hbeq := (beq_zero_iff hb).mpr hzero.symm
    simp [bne, hbeq] at hne

/-- A quotient of finite numbers that is not too large is finite, rounded or not. -/
theorem Combines.finite (h : m.Combines read value) (hread : ∀ key, (read key).Finite)
    (hover : ¬ m.Overflows read) : value.Finite := by
  cases h with
  | @quotient x y places hdivides =>
    obtain ⟨s, a, s', b, ha, hb, hpos⟩ := hdivides.exists_isSigned hread
    have hle : a / b ≤ 2 ^ (1022 : ℤ) := by
      rw [div_le_iff₀ hpos]
      exact not_lt.mp fun hlt => hover (.intro hdivides ha hb hlt)
    obtain ⟨q, hq, hqle, -⟩ := (roundsTo_div ha hb hpos).exists_le (by decide) (by decide) hle
    obtain ⟨t, r, hr, -⟩ :=
      Decimal.exists_isSigned_roundTo hq (by decide) (by decide) hqle places
    exact isFinite_iff.mpr ⟨t, r, hr⟩
  | fallback _ _ _ hvalue =>
    unfold Metric.fallback at hvalue
    split at hvalue
    · cases hvalue
      exact isFinite_iff.mpr ⟨_, _, isSigned_zero⟩
    · split at hvalue
      · next hvalue' =>
        cases hvalue
        exact Scalar.finite_of_ofJson? hvalue'
      · cases hvalue

theorem finite_of_compute {item : Json} {computed : Values} {c : Computed}
    (h : m.compute item computed = .ok c) (hread : ∀ key, (reference computed key).Finite)
    (hover : ¬ m.Overflows (reference computed)) : c.1.Finite := by
  rcases of_compute_eq_ok h with ⟨n, hn⟩ | ⟨b, hb⟩ | hcombines
  · rw [hn]
    trivial
  · rw [hb]
    trivial
  · exact hcombines.finite hread hover

/-! ## Counts and truth values -/

/-- The operation of a metric reads no other metrics. -/
def NamesNone (m : Metric) : Prop :=
  ∀ op, Operation.ofName? m.operation.text = some op → op.metricKeys = []

/-- None of the metrics that a metric names reads others, and a constant that it divides by is not
tiny. -/
structure OfCounts (m : Metric) (ms : List Metric) : Prop where
  names : ∀ op key s, Operation.ofName? m.operation.text = some op → key ∈ op.metricKeys →
    m.config.get? key = some (.string s) → ∀ m' ∈ ms, m'.key.text = s → m'.NamesNone
  per : ∀ per, m.config.get? "per" = some (.number per) →
    ∃ s b, IsSigned per.toFloat s b ∧ 2 ^ (-959 : ℤ) ≤ b

theorem Combines.not_namesNone (h : m.Combines read value) : ¬ m.NamesNone := by
  intro hnone
  cases h with
  | quotient hdivides =>
    cases hdivides with
    | ratio hop | rate hop => cases hnone _ hop
  | fallback hop => cases hnone _ hop

theorem NamesNone.whole_of_compute {item : Json} {computed : Values} {c : Computed}
    (hnone : m.NamesNone) (h : m.compute item computed = .ok c) : c.1.Whole := by
  rcases of_compute_eq_ok h with ⟨n, hn⟩ | ⟨b, hb⟩ | hcombines
  · rw [hn]
    trivial
  · rw [hb]
    trivial
  · exact absurd hnone hcombines.not_namesNone

theorem OfCounts.not_overflows {ms : List Metric} (h : m.OfCounts ms)
    (hread : ∀ s, (∀ m' ∈ ms, m'.key.text = s → m'.NamesNone) → (read s).Whole) :
    ¬ m.Overflows read := by
  rintro @⟨x, y, s, s', a, b, hdivides, ha, hb, hlt⟩
  refine hlt.not_ge ?_
  suffices hbounds : a ≤ 2 ^ (63 : ℤ) ∧ 2 ^ (-959 : ℤ) ≤ b by
    calc a ≤ 2 ^ (63 : ℤ) := hbounds.1
      _ = 2 ^ (1022 : ℤ) * 2 ^ (-959 : ℤ) := by
        rw [← zpow_add₀ two_ne_zero]
        norm_num
      _ ≤ 2 ^ (1022 : ℤ) * b := mul_le_mul_of_nonneg_left hbounds.2 (by positivity)
  cases hdivides with
  | ratio hop hn hd htrue hx hy =>
    obtain ⟨_, a', ha', hle, -⟩ :=
      (hread _ (h.names _ _ _ hop List.mem_cons_self hn)).exists_isSigned hx
    obtain ⟨_, b', hb', -, hone⟩ := (hread _ (h.names _ _ _ hop
      (List.mem_cons_of_mem _ List.mem_cons_self) hd)).exists_isSigned hy
    rw [(Signed.unique ha ha').2, (Signed.unique hb hb').2]
    exact ⟨hle, (zpow_le_one_of_nonpos₀ one_le_two (by decide)).trans (hone htrue)⟩
  | rate hop hk hx hper =>
    obtain ⟨_, a', ha', hle, -⟩ :=
      (hread _ (h.names _ _ _ hop List.mem_cons_self hk)).exists_isSigned hx
    obtain ⟨_, b', hb', hlow⟩ := h.per _ hper
    rw [(Signed.unique ha ha').2, (Signed.unique hb hb').2]
    exact ⟨hle, hlow⟩

end Metric
end ItemMetrics
