import ItemMetrics.Proofs.Metric.Reading

/-! # How a metric fails

An operation fails on its configuration or on a text among the values it computes with
(`Operation.failure_of_apply`). That a dependency is not computed is noticed before, from the keys
of the values alone (`Metric.compute_eq_unmet_iff`). -/

namespace ItemMetrics

/-- The first of the dependencies of a metric that is not among the keys. -/
def Metric.FirstUnmet (m : Metric) (keys : List String) (l : Label) : Prop :=
  ∃ met rest, m.dependsOn = met ++ l :: rest ∧ (∀ l' ∈ met, l'.text ∈ keys) ∧ l.text ∉ keys

variable {m : Metric} {op : Operation} {item : Json} {computed : Values} {c : Computed}
  {e : EvaluationError} {l : Label}

namespace Metric

theorem eq_nonNumericMetric_of_numeric {source : String} {v : Scalar}
    (h : m.numeric source v = .error e) : e = .nonNumericMetric m.key.text source := by
  unfold numeric at h
  split at h <;> cases h
  rfl

theorem failure_of_ratio (h : m.ratio computed = .error e) :
    e.OfConfiguration ∨ ∃ source, e = .nonNumericMetric m.key.text source := by
  obtain h | ⟨n, -, h⟩ := Except.bind_eq_error_iff.mp h
  · exact .inl (ofConfiguration_of_requireText h)
  obtain h | ⟨d, -, h⟩ := Except.bind_eq_error_iff.mp h
  · exact .inl (ofConfiguration_of_requireText h)
  obtain h | ⟨precision, -, h⟩ := Except.bind_eq_error_iff.mp h
  · exact .inl (ofConfiguration_of_precision h)
  dsimp only at h
  split at h
  · obtain h | ⟨x, -, h⟩ := Except.bind_eq_error_iff.mp h
    · exact .inr ⟨n, eq_nonNumericMetric_of_numeric h⟩
    obtain h | ⟨y, -, h⟩ := Except.bind_eq_error_iff.mp h
    · exact .inr ⟨d, eq_nonNumericMetric_of_numeric h⟩
    · cases h
  · obtain h | ⟨v, -, h⟩ := Except.bind_eq_error_iff.mp h
    · exact .inl (ofConfiguration_of_fallback h)
    · cases h

theorem failure_of_rate (h : m.rate computed = .error e) :
    e.OfConfiguration ∨ ∃ source, e = .nonNumericMetric m.key.text source := by
  obtain h | ⟨k, -, h⟩ := Except.bind_eq_error_iff.mp h
  · exact .inl (ofConfiguration_of_requireText h)
  obtain h | ⟨per, -, h⟩ := Except.bind_eq_error_iff.mp h
  · exact .inl (ofConfiguration_of_divisor h)
  obtain h | ⟨precision, -, h⟩ := Except.bind_eq_error_iff.mp h
  · exact .inl (ofConfiguration_of_precision h)
  obtain h | ⟨x, -, h⟩ := Except.bind_eq_error_iff.mp h
  · exact .inr ⟨k, eq_nonNumericMetric_of_numeric h⟩
  · cases h

theorem ofConfiguration_of_fromPath {value : Option Json → Scalar}
    (h : m.fromPath item value = .error e) : e.OfConfiguration := by
  obtain h | ⟨p, -, h⟩ := Except.bind_eq_error_iff.mp h
  · exact ofConfiguration_of_requireText h
  · cases h

theorem ofConfiguration_of_countWhere (h : m.countWhere item = .error e) : e.OfConfiguration := by
  obtain h | ⟨p, -, h⟩ := Except.bind_eq_error_iff.mp h
  · exact ofConfiguration_of_requireText h
  obtain h | ⟨field, -, h⟩ := Except.bind_eq_error_iff.mp h
  · exact ofConfiguration_of_requireText h
  · cases h

end Metric

/-- An operation fails on its configuration, or on a text where it needs a number. -/
theorem Operation.failure_of_apply (h : op.apply m item computed = .error e) :
    e.OfConfiguration ∨ ∃ source, e = .nonNumericMetric m.key.text source := by
  cases op with
  | length | wordCount | presence =>
    simp only [apply, Metric.length, Metric.wordCount, Metric.presence] at h
    exact .inl (Metric.ofConfiguration_of_fromPath h)
  | countWhere => exact .inl (Metric.ofConfiguration_of_countWhere h)
  | ratio => exact Metric.failure_of_ratio h
  | rate => exact Metric.failure_of_rate h

namespace Metric

theorem FirstUnmet.mem_dependsOn {keys : List String} (h : m.FirstUnmet keys l) :
    l ∈ m.dependsOn := by
  obtain ⟨met, rest, hsplit, -⟩ := h
  rw [hsplit]
  exact List.mem_append_right _ List.mem_cons_self

theorem FirstUnmet.not_mem {keys : List String} (h : m.FirstUnmet keys l) : l.text ∉ keys := by
  obtain ⟨-, -, -, -, h⟩ := h
  exact h

theorem find?_dependsOn_eq_some_iff :
    m.dependsOn.find? (fun d => !computed.contains d.text) = some l ↔
      m.FirstUnmet computed.keys l := by
  rw [List.find?_eq_some_iff_append]
  constructor
  · rintro ⟨hl, met, rest, hsplit, hmet⟩
    refine ⟨met, rest, hsplit, fun l' hl' => ?_, by simpa [Values.contains] using hl⟩
    simpa [Values.contains] using hmet l' hl'
  · rintro ⟨met, rest, hsplit, hmet, hl⟩
    refine ⟨by simpa [Values.contains] using hl, met, rest, hsplit, fun l' hl' => ?_⟩
    simpa [Values.contains] using hmet l' hl'

/-- A dependency that is not computed is the first thing to be noticed, and nothing else is reported
as one. -/
theorem compute_eq_unmet_iff {metric dependency : String} :
    m.compute item computed = .error (.unmetDependency metric dependency) ↔
      ∃ l, m.FirstUnmet computed.keys l ∧ metric = m.key.text ∧ dependency = l.text := by
  simp only [← find?_dependsOn_eq_some_iff]
  unfold compute
  cases m.dependsOn.find? fun d => !computed.contains d.text with
  | some l => simp [eq_comm]
  | none =>
    refine iff_of_false (fun h => ?_) (by simp)
    dsimp only at h
    split at h
    · obtain h | ⟨source, h⟩ := Operation.failure_of_apply h <;> cases h
    · cases h

/-- A metric fails for its declaration, or on a text where it needs a number. -/
theorem failure_of_compute (h : m.compute item computed = .error e) :
    e.OfDeclaration ∨ ∃ source, e = .nonNumericMetric m.key.text source := by
  unfold compute at h
  split at h
  · cases h
    exact .inl .unmet
  · split at h
    · exact (Operation.failure_of_apply h).imp_left EvaluationError.OfConfiguration.ofDeclaration
    · cases h
      exact .inl .unsupported

/-- A metric that is computed depends only on what was computed before it. -/
theorem mem_keys_of_compute (h : m.compute item computed = .ok c) (hl : l ∈ m.dependsOn) :
    l.text ∈ computed.keys := by
  unfold compute at h
  split at h
  · cases h
  · next hnone => simpa [Values.contains] using List.find?_eq_none.mp hnone l hl

end Metric
end ItemMetrics
