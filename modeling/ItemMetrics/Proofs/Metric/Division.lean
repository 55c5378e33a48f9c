import ItemMetrics.Proofs.Metric.Check
import ItemMetrics.Proofs.Metric.Setting

/-! # How ratios and rates end

A ratio or a rate is refused for the first of its faults, in the order in which its settings and then
the values it reads are looked at (`Metric.RatioFault`, `Metric.RateFault`), and has a result in all
other cases (`Metric.RatioResult`, `Metric.RateResult`). The fallback of a ratio is looked at only
where the denominator is not true, and the values only where it is; what is true is never zero as a
number (`Scalar.toFloat?_beq_zero`), so nothing is divided by zero. -/

namespace ItemMetrics

namespace Metric

/-- The settings that every ratio has to have. -/
structure RatioSettings (m : Metric) (n d : String) (places : Option Int) : Prop where
  numerator : m.HoldsText "numerator" n
  denominator : m.HoldsText "denominator" d
  precision : m.HoldsPlaces places

/-- The settings that every rate has to have. -/
structure RateSettings (m : Metric) (k : String) (y : Float) (places : Option Int) : Prop where
  metric : m.HoldsText "metric" k
  divisor : m.HoldsDivisor y
  precision : m.HoldsPlaces places

/-- The first fault of a ratio. -/
inductive RatioFault (m : Metric) (computed : Values) : EvaluationError → Prop where
  | numerator {e : EvaluationError} :
    m.Refused "numerator" Json.IsText "must be a non-empty string" e → RatioFault m computed e
  | denominator {n : String} {e : EvaluationError} : m.HoldsText "numerator" n →
    m.Refused "denominator" Json.IsText "must be a non-empty string" e → RatioFault m computed e
  | precision {n d : String} : m.HoldsText "numerator" n → m.HoldsText "denominator" d →
    m.Misuses "precision" (fun value => ∃ n, value.IsPlaces n) →
    RatioFault m computed (.invalidConfig m.key.text "precision" "must be an integer")
  | fallback {n d : String} {places : Option Int} : m.RatioSettings n d places →
    (reference computed d).isTruthy = false → m.MisusesFallback →
    RatioFault m computed
      (.invalidConfig m.key.text "default" "must be a number, boolean or string")
  | numeratorText {n d s : String} {places : Option Int} : m.RatioSettings n d places →
    (reference computed d).isTruthy = true → reference computed n = .text s →
    RatioFault m computed (.nonNumericMetric m.key.text n)
  | denominatorText {n d s : String} {places : Option Int} : m.RatioSettings n d places →
    (reference computed d).isTruthy = true → (∀ s, reference computed n ≠ .text s) →
    reference computed d = .text s → RatioFault m computed (.nonNumericMetric m.key.text d)

/-- What a ratio comes to. The fallback is taken as it is, without rounding. -/
inductive RatioResult (m : Metric) (computed : Values) : Computed → Prop where
  | fallback {n d : String} {places : Option Int} {value : Scalar} : m.RatioSettings n d places →
    (reference computed d).isTruthy = false → m.HoldsFallback value →
    RatioResult m computed (value, [.metric n, .metric d])
  | quotient {n d : String} {places : Option Int} {x y : Float} : m.RatioSettings n d places →
    (reference computed d).isTruthy = true → (reference computed n).toFloat? = some x →
    (reference computed d).toFloat? = some y → (y == 0) = false →
    RatioResult m computed (.float (Decimal.roundTo (x / y) places), [.metric n, .metric d])

/-- The first fault of a rate. -/
inductive RateFault (m : Metric) (computed : Values) : EvaluationError → Prop where
  | metric {e : EvaluationError} :
    m.Refused "metric" Json.IsText "must be a non-empty string" e → RateFault m computed e
  | divisor {k : String} {e : EvaluationError} : m.HoldsText "metric" k →
    m.Refused "per" Json.IsDivisor "must be a non-zero number" e → RateFault m computed e
  | precision {k : String} {y : Float} : m.HoldsText "metric" k → m.HoldsDivisor y →
    m.Misuses "precision" (fun value => ∃ n, value.IsPlaces n) →
    RateFault m computed (.invalidConfig m.key.text "precision" "must be an integer")
  | text {k s : String} {y : Float} {places : Option Int} : m.RateSettings k y places →
    reference computed k = .text s → RateFault m computed (.nonNumericMetric m.key.text k)

/-- What a rate comes to. -/
inductive RateResult (m : Metric) (computed : Values) : Computed → Prop where
  | quotient {k : String} {x y : Float} {places : Option Int} : m.RateSettings k y places →
    (reference computed k).toFloat? = some x →
    RateResult m computed (.float (Decimal.roundTo (x / y) places), [.metric k])

end Metric

/-! ## Values as numbers -/

namespace Scalar

variable {value : Scalar} {y : Float}

theorem toFloat?_eq_none_iff : value.toFloat? = none ↔ ∃ s, value = .text s := by
  cases value with
  | text s => exact iff_of_true rfl ⟨s, rfl⟩
  | integer | float | boolean =>
    refine iff_of_false (fun h => by cases h) ?_
    rintro ⟨s, h⟩
    cases h

/-- What is true is not zero as a number. -/
theorem toFloat?_beq_zero (h : value.isTruthy = true) (hy : value.toFloat? = some y) :
    (y == 0) = false := by
  cases value with
  | text => cases hy
  | float x =>
    cases hy
    simpa [isTruthy, bne] using h
  | integer | boolean =>
    obtain ⟨s, a, ha, -, hone⟩ := Whole.exists_isSigned (by trivial) hy
    rw [Bool.eq_false_iff, ne_eq, Double.beq_zero_iff ha]
    exact (zero_lt_one.trans_le (hone h)).ne'

end Scalar

namespace Metric

variable {m : Metric} {computed : Values} {e : EvaluationError} {c : Computed} {n d k : String}
  {y : Float} {places : Option Int}

theorem numeric_eq_error_iff {source : String} {value : Scalar} :
    m.numeric source value = .error e ↔
      (∃ s, value = .text s) ∧ e = .nonNumericMetric m.key.text source := by
  rw [← Scalar.toFloat?_eq_none_iff]
  unfold numeric
  cases value.toFloat? <;> simp [eq_comm]

/-! ## Ratios -/

theorem RatioSettings.ratio_of_false (h : m.RatioSettings n d places)
    (hfalse : (reference computed d).isTruthy = false) :
    m.ratio computed = do return (← m.fallback, [.metric n, .metric d]) := by
  unfold ratio
  rw [requireText_eq_ok_iff.mpr h.numerator, Except.ok_bind, requireText_eq_ok_iff.mpr h.denominator,
    Except.ok_bind, precision_eq_ok_iff.mpr h.precision, Except.ok_bind, hfalse]
  rfl

theorem RatioSettings.ratio_of_true (h : m.RatioSettings n d places)
    (htrue : (reference computed d).isTruthy = true) :
    m.ratio computed = do
      let x ← m.numeric n (reference computed n)
      let y ← m.numeric d (reference computed d)
      return (.float (Decimal.roundTo (x / y) places), [.metric n, .metric d]) := by
  unfold ratio
  rw [requireText_eq_ok_iff.mpr h.numerator, Except.ok_bind, requireText_eq_ok_iff.mpr h.denominator,
    Except.ok_bind, precision_eq_ok_iff.mpr h.precision, Except.ok_bind, htrue]
  rfl

/-- A ratio is refused before its values are looked at, or it has its settings. -/
theorem ratioFault_or_settings (m : Metric) (computed : Values) :
    (∃ e, m.ratio computed = .error e ∧ m.RatioFault computed e) ∨
      ∃ n d places, m.RatioSettings n d places := by
  unfold ratio
  cases hn : m.requireText "numerator" with
  | error e => exact .inl ⟨e, rfl, .numerator (requireText_eq_error_iff.mp hn)⟩
  | ok n =>
    have hn := requireText_eq_ok_iff.mp hn
    cases hd : m.requireText "denominator" with
    | error e => exact .inl ⟨e, rfl, .denominator hn (requireText_eq_error_iff.mp hd)⟩
    | ok d =>
      have hd := requireText_eq_ok_iff.mp hd
      cases hplaces : m.precision with
      | error e =>
        obtain ⟨hmisuses, rfl⟩ := precision_eq_error_iff.mp hplaces
        exact .inl ⟨_, rfl, .precision hn hd hmisuses⟩
      | ok places => exact .inr ⟨n, d, places, hn, hd, precision_eq_ok_iff.mp hplaces⟩

theorem fault_of_ratio (h : m.ratio computed = .error e) : m.RatioFault computed e := by
  obtain ⟨e', he', hfault⟩ | ⟨n, d, places, hs⟩ := ratioFault_or_settings m computed
  · cases h.symm.trans he'
    exact hfault
  cases htrue : (reference computed d).isTruthy with
  | false =>
    rw [hs.ratio_of_false htrue] at h
    obtain h | ⟨value, -, h⟩ := Except.bind_eq_error_iff.mp h
    · obtain ⟨hmisuses, rfl⟩ := fallback_eq_error_iff.mp h
      exact .fallback hs htrue hmisuses
    · cases h
  | true =>
    rw [hs.ratio_of_true htrue] at h
    obtain h | ⟨x, hx, h⟩ := Except.bind_eq_error_iff.mp h
    · obtain ⟨⟨s, hs'⟩, rfl⟩ := numeric_eq_error_iff.mp h
      exact .numeratorText hs htrue hs'
    obtain h | ⟨y, -, h⟩ := Except.bind_eq_error_iff.mp h
    · obtain ⟨⟨s, hs'⟩, rfl⟩ := numeric_eq_error_iff.mp h
      refine .denominatorText hs htrue (fun t ht => ?_) hs'
      cases hx.symm.trans (numeric_eq_error_iff.mpr ⟨⟨t, ht⟩, rfl⟩)
    · cases h

theorem result_of_ratio (h : m.ratio computed = .ok c) : m.RatioResult computed c := by
  obtain ⟨n, d, places, hn, hd, hplaces, hsources, hvalue⟩ := of_ratio_eq_ok h
  have hs : m.RatioSettings n d places :=
    ⟨requireText_eq_ok_iff.mp hn, requireText_eq_ok_iff.mp hd, precision_eq_ok_iff.mp hplaces⟩
  obtain ⟨value, sources⟩ := c
  obtain rfl : sources = _ := hsources
  obtain ⟨htrue, x, y, hx, hy, hvalue⟩ | ⟨hfalse, hvalue⟩ := hvalue
  · obtain rfl : value = _ := hvalue
    have hy := numeric_eq_ok_iff.mp hy
    exact .quotient hs htrue (numeric_eq_ok_iff.mp hx) hy (Scalar.toFloat?_beq_zero htrue hy)
  · exact .fallback hs hfalse (fallback_eq_ok_iff.mp hvalue)

theorem ratio_eq_error_iff : m.ratio computed = .error e ↔ m.RatioFault computed e := by
  refine ⟨fault_of_ratio, fun h => ?_⟩
  cases h with
  | numerator h => rw [ratio, requireText_eq_error_iff.mpr h, Except.error_bind]
  | denominator hn h =>
    rw [ratio, requireText_eq_ok_iff.mpr hn, Except.ok_bind, requireText_eq_error_iff.mpr h,
      Except.error_bind]
  | precision hn hd h =>
    rw [ratio, requireText_eq_ok_iff.mpr hn, Except.ok_bind, requireText_eq_ok_iff.mpr hd,
      Except.ok_bind, precision_eq_error_iff.mpr ⟨h, rfl⟩, Except.error_bind]
  | fallback hs hfalse h =>
    rw [hs.ratio_of_false hfalse, fallback_eq_error_iff.mpr ⟨h, rfl⟩, Except.error_bind]
  | numeratorText hs htrue h =>
    rw [hs.ratio_of_true htrue, numeric_eq_error_iff.mpr ⟨⟨_, h⟩, rfl⟩, Except.error_bind]
  | denominatorText hs htrue hn h =>
    obtain ⟨x, hx⟩ := Scalar.exists_toFloat? hn
    rw [hs.ratio_of_true htrue, numeric_eq_ok_iff.mpr hx, Except.ok_bind,
      numeric_eq_error_iff.mpr ⟨⟨_, h⟩, rfl⟩, Except.error_bind]

theorem ratio_eq_ok_iff : m.ratio computed = .ok c ↔ m.RatioResult computed c := by
  refine ⟨result_of_ratio, fun h => ?_⟩
  cases h with
  | fallback hs hfalse h =>
    rw [hs.ratio_of_false hfalse, fallback_eq_ok_iff.mpr h]
    rfl
  | quotient hs htrue hx hy _ =>
    rw [hs.ratio_of_true htrue, numeric_eq_ok_iff.mpr hx, Except.ok_bind, numeric_eq_ok_iff.mpr hy]
    rfl

/-! ## Rates -/

theorem RateSettings.rate_eq (h : m.RateSettings k y places) :
    m.rate computed = do
      let x ← m.numeric k (reference computed k)
      return (.float (Decimal.roundTo (x / y) places), [.metric k]) := by
  unfold rate
  rw [requireText_eq_ok_iff.mpr h.metric, Except.ok_bind, divisor_eq_ok_iff_holds.mpr h.divisor,
    Except.ok_bind, precision_eq_ok_iff.mpr h.precision, Except.ok_bind]

/-- A rate is refused before its value is looked at, or it has its settings. -/
theorem rateFault_or_settings (m : Metric) (computed : Values) :
    (∃ e, m.rate computed = .error e ∧ m.RateFault computed e) ∨
      ∃ k y places, m.RateSettings k y places := by
  unfold rate
  cases hk : m.requireText "metric" with
  | error e => exact .inl ⟨e, rfl, .metric (requireText_eq_error_iff.mp hk)⟩
  | ok k =>
    have hk := requireText_eq_ok_iff.mp hk
    cases hy : m.divisor with
    | error e => exact .inl ⟨e, rfl, .divisor hk (divisor_eq_error_iff.mp hy)⟩
    | ok y =>
      have hy := divisor_eq_ok_iff_holds.mp hy
      cases hplaces : m.precision with
      | error e =>
        obtain ⟨hmisuses, rfl⟩ := precision_eq_error_iff.mp hplaces
        exact .inl ⟨_, rfl, .precision hk hy hmisuses⟩
      | ok places => exact .inr ⟨k, y, places, hk, hy, precision_eq_ok_iff.mp hplaces⟩

theorem fault_of_rate (h : m.rate computed = .error e) : m.RateFault computed e := by
  obtain ⟨e', he', hfault⟩ | ⟨k, y, places, hs⟩ := rateFault_or_settings m computed
  · cases h.symm.trans he'
    exact hfault
  rw [hs.rate_eq] at h
  obtain h | ⟨x, -, h⟩ := Except.bind_eq_error_iff.mp h
  · obtain ⟨⟨s, hs'⟩, rfl⟩ := numeric_eq_error_iff.mp h
    exact .text hs hs'
  · cases h

theorem rate_eq_error_iff : m.rate computed = .error e ↔ m.RateFault computed e := by
  refine ⟨fault_of_rate, fun h => ?_⟩
  cases h with
  | metric h => rw [rate, requireText_eq_error_iff.mpr h, Except.error_bind]
  | divisor hk h =>
    rw [rate, requireText_eq_ok_iff.mpr hk, Except.ok_bind, divisor_eq_error_iff.mpr h,
      Except.error_bind]
  | precision hk hy h =>
    rw [rate, requireText_eq_ok_iff.mpr hk, Except.ok_bind, divisor_eq_ok_iff_holds.mpr hy,
      Except.ok_bind, precision_eq_error_iff.mpr ⟨h, rfl⟩, Except.error_bind]
  | text hs h => rw [hs.rate_eq, numeric_eq_error_iff.mpr ⟨⟨_, h⟩, rfl⟩, Except.error_bind]

theorem rate_eq_ok_iff : m.rate computed = .ok c ↔ m.RateResult computed c := by
  constructor
  · intro h
    obtain ⟨k, y, places, x, hk, hy, hplaces, hx, rfl⟩ := of_rate_eq_ok h
    exact .quotient ⟨requireText_eq_ok_iff.mp hk, divisor_eq_ok_iff_holds.mp hy,
      precision_eq_ok_iff.mp hplaces⟩ (numeric_eq_ok_iff.mp hx)
  · rintro ⟨hs, hx⟩
    rw [hs.rate_eq, numeric_eq_ok_iff.mpr hx]
    rfl

end Metric

/-- A ratio and a rate fail for their first fault, whatever the metric and the values computed
before, and otherwise they have a result. -/
theorem Operation.apply_ratio_rate_iff (m : Metric) (item : Json) (computed : Values) :
    (∀ e, Operation.ratio.apply m item computed = .error e ↔ m.RatioFault computed e) ∧
    (∀ c, Operation.ratio.apply m item computed = .ok c ↔ m.RatioResult computed c) ∧
    (∀ e, Operation.rate.apply m item computed = .error e ↔ m.RateFault computed e) ∧
    ∀ c, Operation.rate.apply m item computed = .ok c ↔ m.RateResult computed c :=
  ⟨fun _ => Metric.ratio_eq_error_iff, fun _ => Metric.ratio_eq_ok_iff,
    fun _ => Metric.rate_eq_error_iff, fun _ => Metric.rate_eq_ok_iff⟩

end ItemMetrics
