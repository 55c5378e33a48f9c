import Mathlib.Data.List.Find
import ItemMetrics.Proofs.Except
import ItemMetrics.Proofs.Metric.Configuration
import ItemMetrics.Proofs.Metric.Values

/-! # What a metric reads

An operation looks at the item and at the values computed before only through the sources that its
configuration names (`Operation.sources`). Equal views at these sources give equal outcomes,
failures included (`Operation.apply_congr`), and a success records exactly these sources
(`Operation.sources_of_apply`): nothing is read that is not recorded. -/

namespace ItemMetrics

/-- Two items, each with the values computed for it, look the same at a source. -/
def Source.SameAt (item item' : Json) (computed computed' : Values) : Source → Prop
  | .path p => FieldPath.resolve item p = FieldPath.resolve item' p
  | .metric k => computed.get? k = computed'.get? k

/-- The text that the configuration has under `key`. -/
def Metric.text? (m : Metric) (key : String) : Option String :=
  (m.config.get? key).bind Json.string?

namespace Operation

/-- The keys under which the configuration has a path into the item. -/
def pathKeys : Operation → List String
  | .length | .countWhere | .wordCount | .presence => ["path"]
  | .ratio | .rate => []

/-- The keys under which the configuration names another metric. -/
def metricKeys : Operation → List String
  | .ratio => ["numerator", "denominator"]
  | .rate => ["metric"]
  | .length | .countWhere | .wordCount | .presence => []

/-- The sources that a configuration names for an operation. -/
def sources (op : Operation) (m : Metric) : List Source :=
  (op.pathKeys.filterMap m.text?).map .path ++ (op.metricKeys.filterMap m.text?).map .metric

end Operation

variable {m : Metric} {op : Operation} {item item' : Json} {computed computed' : Values}
  {c : Computed}

namespace Metric

theorem text?_eq_some_iff {key s : String} :
    m.text? key = some s ↔ m.config.get? key = some (.string s) := by
  simp only [text?, Option.bind_eq_some_iff]
  constructor
  · rintro ⟨value, hvalue, hs⟩
    cases value <;> cases hs
    exact hvalue
  · exact fun h => ⟨_, h, rfl⟩

theorem text?_of_requireText {key s : String} (h : m.requireText key = .ok s) :
    m.text? key = some s :=
  text?_eq_some_iff.mpr (requireText_eq_ok_iff.mp h).1

/-! ## Outcomes depend on the sources -/

theorem fromPath_congr {value : Option Json → Scalar}
    (h : ∀ p, m.text? "path" = some p → FieldPath.resolve item p = FieldPath.resolve item' p) :
    m.fromPath item value = m.fromPath item' value := by
  unfold fromPath
  cases hp : m.requireText "path" with
  | error e => rfl
  | ok p => rw [Except.ok_bind, Except.ok_bind, h p (text?_of_requireText hp)]

theorem countWhere_congr
    (h : ∀ p, m.text? "path" = some p → FieldPath.resolve item p = FieldPath.resolve item' p) :
    m.countWhere item = m.countWhere item' := by
  unfold countWhere
  cases hp : m.requireText "path" with
  | error e => rfl
  | ok p => rw [Except.ok_bind, Except.ok_bind, h p (text?_of_requireText hp)]

theorem reference_congr {k : String} (h : computed.get? k = computed'.get? k) :
    reference computed k = reference computed' k := by
  rw [reference, reference, h]

theorem ratio_congr
    (h : ∀ key ∈ ["numerator", "denominator"], ∀ k, m.text? key = some k →
      computed.get? k = computed'.get? k) :
    m.ratio computed = m.ratio computed' := by
  unfold ratio
  cases hn : m.requireText "numerator" with
  | error e => rfl
  | ok n =>
    cases hd : m.requireText "denominator" with
    | error e => rfl
    | ok d =>
      have hn' := reference_congr (h _ (by simp) n (text?_of_requireText hn))
      have hd' := reference_congr (h _ (by simp) d (text?_of_requireText hd))
      simp only [Except.ok_bind]
      rw [hn', hd']

theorem rate_congr
    (h : ∀ k, m.text? "metric" = some k → computed.get? k = computed'.get? k) :
    m.rate computed = m.rate computed' := by
  unfold rate
  cases hk : m.requireText "metric" with
  | error e => rfl
  | ok k =>
    simp only [Except.ok_bind]
    rw [reference_congr (h k (text?_of_requireText hk))]

/-! ## A success records its sources -/

theorem of_fromPath_eq_ok {value : Option Json → Scalar} (h : m.fromPath item value = .ok c) :
    ∃ p, m.requireText "path" = .ok p ∧ c = (value (FieldPath.resolve item p), [.path p]) := by
  obtain ⟨p, hp, h⟩ := Except.bind_eq_ok_iff.mp h
  cases h
  exact ⟨p, hp, rfl⟩

theorem of_countWhere_eq_ok (h : m.countWhere item = .ok c) :
    ∃ p n, m.requireText "path" = .ok p ∧ c = (.ofCount n, [.path p]) := by
  obtain ⟨p, hp, h⟩ := Except.bind_eq_ok_iff.mp h
  obtain ⟨field, -, h⟩ := Except.bind_eq_ok_iff.mp h
  cases h
  exact ⟨p, _, hp, rfl⟩

theorem of_ratio_eq_ok (h : m.ratio computed = .ok c) :
    ∃ n d places, m.requireText "numerator" = .ok n ∧ m.requireText "denominator" = .ok d ∧
      m.precision = .ok places ∧ c.2 = [.metric n, .metric d] ∧
      ((reference computed d).isTruthy = true ∧
          (∃ x y, m.numeric n (reference computed n) = .ok x ∧
            m.numeric d (reference computed d) = .ok y ∧
            c.1 = .float (Decimal.roundTo (x / y) places)) ∨
        (reference computed d).isTruthy = false ∧ m.fallback = .ok c.1) := by
  obtain ⟨n, hn, h⟩ := Except.bind_eq_ok_iff.mp h
  obtain ⟨d, hd, h⟩ := Except.bind_eq_ok_iff.mp h
  obtain ⟨places, hplaces, h⟩ := Except.bind_eq_ok_iff.mp h
  refine ⟨n, d, places, hn, hd, hplaces, ?_⟩
  dsimp only at h
  split at h
  · next htrue =>
    obtain ⟨x, hx, h⟩ := Except.bind_eq_ok_iff.mp h
    obtain ⟨y, hy, h⟩ := Except.bind_eq_ok_iff.mp h
    cases h
    exact ⟨rfl, .inl ⟨htrue, x, y, hx, hy, rfl⟩⟩
  · next hfalse =>
    obtain ⟨s, hs, h⟩ := Except.bind_eq_ok_iff.mp h
    cases h
    exact ⟨rfl, .inr ⟨Bool.eq_false_iff.mpr hfalse, hs⟩⟩

theorem of_rate_eq_ok (h : m.rate computed = .ok c) :
    ∃ k per places x, m.requireText "metric" = .ok k ∧ m.divisor = .ok per ∧
      m.precision = .ok places ∧ m.numeric k (reference computed k) = .ok x ∧
      c = (.float (Decimal.roundTo (x / per) places), [.metric k]) := by
  obtain ⟨k, hk, h⟩ := Except.bind_eq_ok_iff.mp h
  obtain ⟨per, hper, h⟩ := Except.bind_eq_ok_iff.mp h
  obtain ⟨places, hplaces, h⟩ := Except.bind_eq_ok_iff.mp h
  obtain ⟨x, hx, h⟩ := Except.bind_eq_ok_iff.mp h
  cases h
  exact ⟨k, per, places, x, hk, hper, hplaces, hx, rfl⟩

end Metric

namespace Operation

theorem path_mem_sources_iff {p : String} :
    .path p ∈ op.sources m ↔ ∃ key ∈ op.pathKeys, m.text? key = some p := by
  simp [sources]

theorem metric_mem_sources_iff {k : String} :
    .metric k ∈ op.sources m ↔ ∃ key ∈ op.metricKeys, m.text? key = some k := by
  simp [sources]

/-- An operation depends on nothing but its sources. -/
theorem apply_congr (h : ∀ s ∈ op.sources m, s.SameAt item item' computed computed') :
    op.apply m item computed = op.apply m item' computed' := by
  have hpath (hkey : "path" ∈ op.pathKeys) (p : String) (hp : m.text? "path" = some p) :
      FieldPath.resolve item p = FieldPath.resolve item' p :=
    h _ (path_mem_sources_iff.mpr ⟨_, hkey, hp⟩)
  have hmetric (key : String) (hkey : key ∈ op.metricKeys) (k : String)
      (hk : m.text? key = some k) : computed.get? k = computed'.get? k :=
    h _ (metric_mem_sources_iff.mpr ⟨_, hkey, hk⟩)
  cases op with
  | length | wordCount | presence =>
    simp only [apply, Metric.length, Metric.wordCount, Metric.presence]
    exact Metric.fromPath_congr (hpath (by simp [pathKeys]))
  | countWhere => exact Metric.countWhere_congr (hpath (by simp [pathKeys]))
  | ratio => exact Metric.ratio_congr hmetric
  | rate => exact Metric.rate_congr (hmetric "metric" (by simp [metricKeys]))

/-- The recorded sources can be read off the declaration. -/
theorem sources_of_apply (h : op.apply m item computed = .ok c) : c.2 = op.sources m := by
  cases op with
  | length | wordCount | presence =>
    simp only [apply, Metric.length, Metric.wordCount, Metric.presence] at h
    obtain ⟨p, hp, rfl⟩ := Metric.of_fromPath_eq_ok h
    simp [sources, pathKeys, metricKeys, Metric.text?_of_requireText hp]
  | countWhere =>
    obtain ⟨p, n, hp, rfl⟩ := Metric.of_countWhere_eq_ok h
    simp [sources, pathKeys, metricKeys, Metric.text?_of_requireText hp]
  | ratio =>
    obtain ⟨n, d, _, hn, hd, -, hc, -⟩ := Metric.of_ratio_eq_ok h
    simp [sources, pathKeys, metricKeys, hc, Metric.text?_of_requireText hn,
      Metric.text?_of_requireText hd]
  | rate =>
    obtain ⟨k, _, _, _, hk, -, -, -, rfl⟩ := Metric.of_rate_eq_ok h
    simp [sources, pathKeys, metricKeys, Metric.text?_of_requireText hk]

end Operation

namespace Metric

/-- A metric refers to the metrics it depends on and to those its configuration names. -/
inductive RefersTo (m : Metric) (k : String) : Prop where
  | dependency {d : Label} : d ∈ m.dependsOn → d.text = k → RefersTo m k
  | named {key : String} : key ∈ ["numerator", "denominator", "metric"] →
    m.config.get? key = some (.string k) → RefersTo m k

theorem refersTo_of_mem_sources {k : String} (h : .metric k ∈ op.sources m) : m.RefersTo k := by
  obtain ⟨key, hkey, hk⟩ := Operation.metric_mem_sources_iff.mp h
  have hkeys : op.metricKeys ⊆ ["numerator", "denominator", "metric"] := by
    cases op <;> simp [Operation.metricKeys]
  exact .named (hkeys hkey) (text?_eq_some_iff.mp hk)

/-- What is recorded for a metric is what its operation finds named in the configuration. -/
theorem sources_of_compute (h : m.compute item computed = .ok c) :
    ∃ op, Operation.ofName? m.operation.text = some op ∧ c.2 = op.sources m := by
  unfold compute at h
  split at h
  · cases h
  · split at h
    · next op hop => exact ⟨op, hop, Operation.sources_of_apply h⟩
    · cases h

theorem text?_path_of_mem_sources {p : String} (h : .path p ∈ op.sources m) :
    m.text? "path" = some p := by
  obtain ⟨key, hkey, hp⟩ := Operation.path_mem_sources_iff.mp h
  cases op <;> simp_all [Operation.pathKeys]

/-- A metric depends on nothing but its path and the metrics it refers to. -/
theorem compute_congr
    (hpath : ∀ p, m.config.get? "path" = some (.string p) →
      FieldPath.resolve item p = FieldPath.resolve item' p)
    (hrefs : ∀ k, m.RefersTo k → computed.get? k = computed'.get? k) :
    m.compute item computed = m.compute item' computed' := by
  have hdependsOn : ∀ d ∈ m.dependsOn,
      (!computed.contains d.text) = (!computed'.contains d.text) := fun d hd => by
    rw [← Values.isSome_get?, ← Values.isSome_get?, hrefs _ (.dependency hd rfl)]
  unfold compute
  rw [List.find?_congr hdependsOn]
  split
  · rfl
  · split
    · refine Operation.apply_congr fun s hs => ?_
      cases s with
      | path p => exact hpath p (text?_eq_some_iff.mp (text?_path_of_mem_sources hs))
      | metric k => exact hrefs k (refersTo_of_mem_sources hs)
    · rfl

end Metric
end ItemMetrics
