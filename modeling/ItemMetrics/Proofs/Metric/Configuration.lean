import ItemMetrics.Metric.Operation

/-! # Reading the configuration of a metric

What a reader of the configuration accepts. Its failures say what is missing or invalid
(`EvaluationError.OfConfiguration`), and so are among those that a declaration causes on its own,
whatever the item (`EvaluationError.OfDeclaration`). -/

namespace ItemMetrics

/-- A failure that the declaration of a metric causes on its own. -/
inductive EvaluationError.OfDeclaration : EvaluationError → Prop where
  | unmet {metric dependency : String} : OfDeclaration (.unmetDependency metric dependency)
  | unsupported {metric operation : String} : OfDeclaration (.unsupportedOperation metric operation)
  | missing {metric key : String} : OfDeclaration (.missingConfig metric key)
  | invalid {metric key reason : String} : OfDeclaration (.invalidConfig metric key reason)

/-- A failure to read the configuration of a metric. -/
inductive EvaluationError.OfConfiguration : EvaluationError → Prop where
  | missing {metric key : String} : OfConfiguration (.missingConfig metric key)
  | invalid {metric key reason : String} : OfConfiguration (.invalidConfig metric key reason)

theorem EvaluationError.OfConfiguration.ofDeclaration {e : EvaluationError}
    (h : e.OfConfiguration) : e.OfDeclaration := by
  cases h with
  | missing => exact .missing
  | invalid => exact .invalid

namespace Metric

variable {m : Metric} {key s : String} {e : EvaluationError}

theorem requireText_eq_ok_iff :
    m.requireText key = .ok s ↔ m.config.get? key = some (.string s) ∧ s ≠ "" := by
  unfold requireText
  split
  · next h => simp [h]
  · next h => simp [h]
  · next t h =>
    rw [h]
    split
    · next ht => simp [ht]
    · next ht => simp only [Except.ok.injEq, Option.some.injEq, Json.string.injEq]; grind
  · next h => rw [h]; grind

theorem ofConfiguration_of_requireText (h : m.requireText key = .error e) :
    e.OfConfiguration := by
  unfold requireText at h
  split at h
  · cases h; exact .missing
  · cases h; exact .missing
  · split at h <;> cases h
    exact .invalid
  · cases h; exact .invalid

theorem ofConfiguration_of_precision (h : m.precision = .error e) : e.OfConfiguration := by
  unfold precision at h
  split at h
  · cases h
  · cases h
  · split at h <;> cases h
    exact .invalid

theorem ofConfiguration_of_divisor (h : m.divisor = .error e) : e.OfConfiguration := by
  unfold divisor at h
  split at h
  · cases h; exact .missing
  · cases h; exact .missing
  · split at h <;> cases h
    exact .invalid
  · cases h; exact .invalid

theorem ofConfiguration_of_fallback (h : m.fallback = .error e) : e.OfConfiguration := by
  unfold fallback at h
  split at h
  · cases h
  · split at h <;> cases h
    exact .invalid

end Metric
end ItemMetrics
