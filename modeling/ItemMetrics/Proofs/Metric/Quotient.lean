import ItemMetrics.Proofs.Metric.Reading

/-! # Quotients

A ratio and a rate divide what they read for the metrics that their configuration names
(`Metric.Divides`). What such a metric comes to is the rounded quotient, or for a ratio whose
denominator is not true its fallback (`Metric.of_compute_eq_ok`). -/

namespace ItemMetrics.Metric

/-- The operation of a metric divides `x` by `y`, where it reads values for the metrics that are
named to it. -/
inductive Divides (m : Metric) (read : String → Scalar) : Float → Float → Prop where
  | ratio {n d : String} {x y : Float} : Operation.ofName? m.operation.text = some .ratio →
    m.config.get? "numerator" = some (.string n) → m.config.get? "denominator" = some (.string d) →
    (read d).isTruthy = true → (read n).toFloat? = some x → (read d).toFloat? = some y →
    Divides m read x y
  | rate {k : String} {x : Float} {per : Json.Number} :
    Operation.ofName? m.operation.text = some .rate →
    m.config.get? "metric" = some (.string k) → (read k).toFloat? = some x →
    m.config.get? "per" = some (.number per) → (per.toFloat != 0) = true →
    Divides m read x per.toFloat

/-- What a metric that reads other metrics comes to. -/
inductive Combines (m : Metric) (read : String → Scalar) : Scalar → Prop where
  | quotient {x y : Float} {places : Option Int} : m.Divides read x y → m.precision = .ok places →
    Combines m read (.float (Decimal.roundTo (x / y) places))
  | fallback {d : String} {value : Scalar} : Operation.ofName? m.operation.text = some .ratio →
    m.config.get? "denominator" = some (.string d) → (read d).isTruthy = false →
    m.fallback = .ok value → Combines m read value

variable {m : Metric} {item : Json} {computed : Values} {c : Computed} {op : Operation}

theorem numeric_eq_ok_iff {source : String} {value : Scalar} {x : Float} :
    m.numeric source value = .ok x ↔ value.toFloat? = some x := by
  unfold numeric
  split <;> simp [*]

theorem divisor_eq_ok_iff {y : Float} :
    m.divisor = .ok y ↔
      ∃ per : Json.Number, m.config.get? "per" = some (.number per) ∧
        (per.toFloat != 0) = true ∧ per.toFloat = y := by
  unfold divisor
  split
  · next h => simp [h]
  · next h => simp [h]
  · next per h =>
    split <;> simp_all
  · next value hnull hnumber h =>
    simp only [h, reduceCtorEq, Option.some.injEq, false_iff, not_exists]
    rintro per ⟨rfl, -⟩
    exact hnumber per rfl

theorem combines_of_ratio (hop : Operation.ofName? m.operation.text = some .ratio)
    (h : m.ratio computed = .ok c) : m.Combines (reference computed) c.1 := by
  obtain ⟨n, d, places, hn, hd, hplaces, -, hvalue⟩ := of_ratio_eq_ok h
  have hn := (requireText_eq_ok_iff.mp hn).1
  have hd := (requireText_eq_ok_iff.mp hd).1
  obtain ⟨htrue, x, y, hx, hy, hvalue⟩ | ⟨hfalse, hvalue⟩ := hvalue
  · rw [hvalue]
    exact .quotient (.ratio hop hn hd htrue (numeric_eq_ok_iff.mp hx) (numeric_eq_ok_iff.mp hy))
      hplaces
  · exact .fallback hop hd hfalse hvalue

theorem combines_of_rate (hop : Operation.ofName? m.operation.text = some .rate)
    (h : m.rate computed = .ok c) : m.Combines (reference computed) c.1 := by
  obtain ⟨k, y, places, x, hk, hy, hplaces, hx, rfl⟩ := of_rate_eq_ok h
  obtain ⟨per, hper, hzero, rfl⟩ := divisor_eq_ok_iff.mp hy
  exact .quotient (.rate hop (requireText_eq_ok_iff.mp hk).1 (numeric_eq_ok_iff.mp hx) hper hzero)
    hplaces

/-- A metric is a count, a truth value, or what its operation makes of the metrics it reads. -/
theorem of_compute_eq_ok (h : m.compute item computed = .ok c) :
    (∃ n, c.1 = .ofCount n) ∨ (∃ b, c.1 = .boolean b) ∨ m.Combines (reference computed) c.1 := by
  unfold compute at h
  split at h
  · cases h
  split at h
  · next op hop =>
    cases op with
    | length | wordCount =>
      simp only [Operation.apply, length, wordCount] at h
      obtain ⟨p, -, rfl⟩ := of_fromPath_eq_ok h
      exact .inl ⟨_, rfl⟩
    | presence =>
      simp only [Operation.apply, presence] at h
      obtain ⟨p, -, rfl⟩ := of_fromPath_eq_ok h
      exact .inr (.inl ⟨_, rfl⟩)
    | countWhere =>
      obtain ⟨p, n, -, rfl⟩ := of_countWhere_eq_ok h
      exact .inl ⟨n, rfl⟩
    | ratio => exact .inr (.inr (combines_of_ratio hop h))
    | rate => exact .inr (.inr (combines_of_rate hop h))
  · cases h

/-- A metric whose operation names others is made of what it reads. -/
theorem combines_of_compute (h : m.compute item computed = .ok c)
    (hop : Operation.ofName? m.operation.text = some op) (hkeys : op.metricKeys ≠ []) :
    m.Combines (reference computed) c.1 := by
  unfold compute at h
  split at h
  · cases h
  rw [hop] at h
  cases op with
  | length | countWhere | wordCount | presence => exact absurd rfl hkeys
  | ratio => exact combines_of_ratio hop h
  | rate => exact combines_of_rate hop h

end ItemMetrics.Metric
