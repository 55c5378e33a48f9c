import ItemMetrics.Proofs.Metric.Reading

/-! # Checking a metric without an item

Whether a metric can be computed shows in its declaration and in which keys are computed before it
(`Metric.check`). Computing it for an item comes to the same if no value before it is a text
(`Metric.map_compute`), and its own value is no text either (`Metric.compute_ne_text`). Only the
fallback of a ratio could be one, which `Metric.PlainDefault` excludes. -/

namespace ItemMetrics

/-- None of the values is a text. -/
def Values.NoText (vs : Values) : Prop :=
  ∀ k s, vs.get? k ≠ some (.text s)

/-- If there is a fallback it is a number or a truth value. -/
def Metric.PlainDefault (m : Metric) : Prop :=
  ∀ value, m.config.get? "default" = some value →
    (∃ n, value = .number n) ∨ ∃ b, value = .bool b

/-- Reads what an operation needs from the configuration. -/
def Operation.check (m : Metric) : Operation → Except EvaluationError Unit
  | .length | .wordCount | .presence => do
    let _ ← m.requireText "path"
  | .countWhere => do
    let _ ← m.requireText "path"
    let _ ← m.requireText "field"
  | .ratio => do
    let _ ← m.requireText "numerator"
    let _ ← m.requireText "denominator"
    let _ ← m.precision
  | .rate => do
    let _ ← m.requireText "metric"
    let _ ← m.divisor
    let _ ← m.precision

/-- Checks a metric after metrics with the given keys. -/
def Metric.check (m : Metric) (keys : List String) : Except EvaluationError Unit :=
  match m.dependsOn.find? fun d => !keys.contains d.text with
  | some d => .error (.unmetDependency m.key.text d.text)
  | none =>
    match Operation.ofName? m.operation.text with
    | some op => op.check m
    | none => .error (.unsupportedOperation m.key.text m.operation.text)

variable {m : Metric} {op : Operation} {item : Json} {computed : Values} {c : Computed}
  {e : EvaluationError}

/-! ## Texts among the values -/

theorem Scalar.exists_toFloat? {v : Scalar} (h : ∀ s, v ≠ .text s) : ∃ x, v.toFloat? = some x := by
  cases v with
  | integer i => exact ⟨_, rfl⟩
  | float x => exact ⟨_, rfl⟩
  | boolean b => exact ⟨_, rfl⟩
  | text s => exact absurd rfl (h s)

theorem Values.noText_empty : (∅ : Values).NoText := nofun

theorem Values.NoText.insert {vs : Values} {k : String} {v : Scalar} (h : vs.NoText)
    (hv : ∀ s, v ≠ .text s) (hk : k ∉ vs.keys) : (vs.insert k v).NoText := by
  intro l s hs
  rw [get?_eq_some_iff, entries_insert_of_not_mem hk, List.mem_append] at hs
  rcases hs with hs | hs
  · exact h l s (get?_eq_some_iff.mpr hs)
  · cases List.mem_singleton.mp hs
    exact hv s rfl

namespace Metric

theorem reference_ne_text (h : computed.NoText) {k s : String} :
    reference computed k ≠ .text s := by
  unfold reference
  cases hk : computed.get? k with
  | none => nofun
  | some v =>
    rintro rfl
    exact h k s hk

/-- A value computed before is a number. -/
theorem exists_numeric (h : computed.NoText) (m : Metric) (source k : String) :
    ∃ x, m.numeric source (reference computed k) = .ok x := by
  obtain ⟨x, hx⟩ := Scalar.exists_toFloat? fun _ => reference_ne_text h
  exact ⟨x, by rw [numeric, hx]⟩

theorem PlainDefault.exists_fallback (h : m.PlainDefault) :
    ∃ v, m.fallback = .ok v ∧ ∀ s, v ≠ .text s := by
  unfold fallback
  cases hvalue : m.config.get? "default" with
  | none => exact ⟨_, rfl, nofun⟩
  | some value =>
    rcases h value hvalue with ⟨n, rfl⟩ | ⟨b, rfl⟩
    · dsimp only [Scalar.ofJson?]
      cases n.toInt64? with
      | none => exact ⟨_, rfl, nofun⟩
      | some i => exact ⟨_, rfl, nofun⟩
    · exact ⟨_, rfl, nofun⟩

/-! ## The check agrees with the computation -/

theorem map_fromPath {value : Option Json → Scalar} :
    (m.fromPath item value).map (fun _ => ()) = Operation.length.check m := by
  unfold fromPath Operation.check
  cases m.requireText "path" <;> rfl

theorem map_countWhere : (m.countWhere item).map (fun _ => ()) = Operation.countWhere.check m := by
  unfold countWhere Operation.check
  cases m.requireText "path" with
  | error e => rfl
  | ok p => cases m.requireText "field" <;> rfl

/-- Whether the denominator is true makes no difference: neither branch can fail. -/
theorem map_ratio (h : computed.NoText) (hdefault : m.PlainDefault) :
    (m.ratio computed).map (fun _ => ()) = Operation.ratio.check m := by
  unfold ratio Operation.check
  cases m.requireText "numerator" with
  | error e => rfl
  | ok n =>
    cases m.requireText "denominator" with
    | error e => rfl
    | ok d =>
      obtain ⟨x, hx⟩ := exists_numeric h m n n
      obtain ⟨y, hy⟩ := exists_numeric h m d d
      obtain ⟨v, hv, -⟩ := hdefault.exists_fallback
      cases m.precision with
      | error e => rfl
      | ok precision =>
        simp only [Except.ok_bind, hx, hy, hv]
        split <;> rfl

theorem map_rate (h : computed.NoText) :
    (m.rate computed).map (fun _ => ()) = Operation.rate.check m := by
  unfold rate Operation.check
  cases m.requireText "metric" with
  | error e => rfl
  | ok k =>
    obtain ⟨x, hx⟩ := exists_numeric h m k k
    cases m.divisor with
    | error e => rfl
    | ok per =>
      cases m.precision with
      | error e => rfl
      | ok precision =>
        simp only [Except.ok_bind, hx]
        rfl

end Metric

theorem Operation.map_apply (h : computed.NoText) (hdefault : op = .ratio → m.PlainDefault) :
    (op.apply m item computed).map (fun _ => ()) = op.check m := by
  cases op with
  | length | wordCount | presence =>
    simp only [apply, Metric.length, Metric.wordCount, Metric.presence]
    exact Metric.map_fromPath
  | countWhere => exact Metric.map_countWhere
  | ratio => exact Metric.map_ratio h (hdefault rfl)
  | rate => exact Metric.map_rate h

theorem Operation.apply_ne_text (h : op.apply m item computed = .ok c)
    (hdefault : op = .ratio → m.PlainDefault) (s : String) : c.1 ≠ .text s := by
  intro hs
  cases op with
  | length | wordCount | presence =>
    simp only [apply, Metric.length, Metric.wordCount, Metric.presence] at h
    obtain ⟨p, -, rfl⟩ := Metric.of_fromPath_eq_ok h
    cases hs
  | countWhere =>
    obtain ⟨p, n, -, rfl⟩ := Metric.of_countWhere_eq_ok h
    cases hs
  | ratio =>
    obtain ⟨_, _, _, -, -, -, -, ⟨-, _, _, -, -, hx⟩ | ⟨-, hv⟩⟩ := Metric.of_ratio_eq_ok h
    · cases hx.symm.trans hs
    · obtain ⟨v, hv', hne⟩ := (hdefault rfl).exists_fallback
      cases hv.symm.trans hv'
      exact hne s hs
  | rate =>
    obtain ⟨_, _, _, _, -, -, -, -, rfl⟩ := Metric.of_rate_eq_ok h
    cases hs

namespace Metric

/-- Computing a metric for an item fails as its check does. -/
theorem map_compute (item : Json) (h : computed.NoText)
    (hdefault : Operation.ofName? m.operation.text = some .ratio → m.PlainDefault) :
    (m.compute item computed).map (fun _ => ()) = m.check computed.keys := by
  unfold compute check Values.contains
  cases m.dependsOn.find? fun d => !computed.keys.contains d.text with
  | some d => rfl
  | none =>
    cases hop : Operation.ofName? m.operation.text with
    | some op => exact Operation.map_apply h fun heq => hdefault (heq ▸ hop)
    | none => rfl

theorem compute_ne_text (h : m.compute item computed = .ok c)
    (hdefault : Operation.ofName? m.operation.text = some .ratio → m.PlainDefault) (s : String) :
    c.1 ≠ .text s := by
  unfold compute at h
  split at h
  · cases h
  · split at h
    · next op hop => exact Operation.apply_ne_text h (fun heq => hdefault (heq ▸ hop)) s
    · cases h

end Metric

/-! ## The failures of the check -/

theorem Operation.ofConfiguration_of_check (h : op.check m = .error e) : e.OfConfiguration := by
  cases op with
  | length | wordCount | presence =>
    obtain h | ⟨_, -, h⟩ := Except.bind_eq_error_iff.mp h
    · exact Metric.ofConfiguration_of_requireText h
    · cases h
  | countWhere =>
    obtain h | ⟨_, -, h⟩ := Except.bind_eq_error_iff.mp h
    · exact Metric.ofConfiguration_of_requireText h
    obtain h | ⟨_, -, h⟩ := Except.bind_eq_error_iff.mp h
    · exact Metric.ofConfiguration_of_requireText h
    · cases h
  | ratio =>
    obtain h | ⟨_, -, h⟩ := Except.bind_eq_error_iff.mp h
    · exact Metric.ofConfiguration_of_requireText h
    obtain h | ⟨_, -, h⟩ := Except.bind_eq_error_iff.mp h
    · exact Metric.ofConfiguration_of_requireText h
    obtain h | ⟨_, -, h⟩ := Except.bind_eq_error_iff.mp h
    · exact Metric.ofConfiguration_of_precision h
    · cases h
  | rate =>
    obtain h | ⟨_, -, h⟩ := Except.bind_eq_error_iff.mp h
    · exact Metric.ofConfiguration_of_requireText h
    obtain h | ⟨_, -, h⟩ := Except.bind_eq_error_iff.mp h
    · exact Metric.ofConfiguration_of_divisor h
    obtain h | ⟨_, -, h⟩ := Except.bind_eq_error_iff.mp h
    · exact Metric.ofConfiguration_of_precision h
    · cases h

theorem Metric.ofDeclaration_of_check {keys : List String} (h : m.check keys = .error e) :
    e.OfDeclaration := by
  unfold check at h
  split at h
  · cases h
    exact .unmet
  · split at h
    · exact (Operation.ofConfiguration_of_check h).ofDeclaration
    · cases h
      exact .unsupported

end ItemMetrics
