import ItemMetrics.Proofs.Json.Members
import ItemMetrics.Proofs.Metric.Division

/-! # Null in a configuration

A setting that is null is read like one that is missing. There are two exceptions: a metric may look
for null in the entries that it counts, and the fallback of a ratio, which may be missing, is refused
when it is null. It is read only where the denominator is not true, so a null may go unnoticed until
then (`Operation.apply_withNull`). -/

namespace ItemMetrics

namespace Metric

/-- The metric with null under a key of its configuration. -/
def withNull (m : Metric) (key : String) : Metric :=
  { m with config := m.config.insert key .null }

/-- The metric without a key of its configuration. -/
def without (m : Metric) (key : String) : Metric :=
  { m with config := m.config.erase key }

variable {m : Metric} {key : String} {computed : Values} {n d : String} {places : Option Int}

/-! ## Settings -/

theorem get?_withNull (m : Metric) (key l : String) :
    (m.withNull key).config.get? l = if l = key then some .null else m.config.get? l :=
  Json.Members.get?_insert m.config key .null l

theorem get?_without (m : Metric) (key l : String) :
    (m.without key).config.get? l = if l = key then none else m.config.get? l :=
  Json.Members.get?_erase m.config key l

/-- The two differ in that one finds null where the other finds nothing. -/
theorem get?_withNull_cases (m : Metric) (key l : String) :
    (m.withNull key).config.get? l = (m.without key).config.get? l ∨
      (m.withNull key).config.get? l = some .null ∧ (m.without key).config.get? l = none := by
  rw [get?_withNull, get?_without]
  by_cases h : l = key
  · rw [if_pos h, if_pos h]
    exact .inr ⟨rfl, rfl⟩
  · rw [if_neg h, if_neg h]
    exact .inl rfl

theorem requireText_withNull (m : Metric) (key l : String) :
    (m.withNull key).requireText l = (m.without key).requireText l := by
  unfold requireText
  obtain h | ⟨hnull, hnone⟩ := m.get?_withNull_cases key l
  · rw [h]
    rfl
  · rw [hnull, hnone]
    rfl

theorem precision_withNull (m : Metric) (key : String) :
    (m.withNull key).precision = (m.without key).precision := by
  unfold precision
  obtain h | ⟨hnull, hnone⟩ := m.get?_withNull_cases key "precision"
  · rw [h]
    rfl
  · rw [hnull, hnone]

theorem divisor_withNull (m : Metric) (key : String) :
    (m.withNull key).divisor = (m.without key).divisor := by
  unfold divisor
  obtain h | ⟨hnull, hnone⟩ := m.get?_withNull_cases key "per"
  · rw [h]
    rfl
  · rw [hnull, hnone]
    rfl

theorem fallback_withNull (m : Metric) (h : key ≠ "default") :
    (m.withNull key).fallback = (m.without key).fallback := by
  unfold fallback
  rw [get?_withNull, get?_without, if_neg h.symm, if_neg h.symm]
  rfl

/-- The settings of a ratio do not include its fallback. -/
theorem ratioSettings_without :
    (m.without "default").RatioSettings n d places ↔ m.RatioSettings n d places := by
  have htext (key s : String) (hkey : key ≠ "default") :
      (m.without "default").HoldsText key s ↔ m.HoldsText key s := by
    rw [HoldsText, get?_without, if_neg hkey, HoldsText]
  have hplaces : (m.without "default").HoldsPlaces places ↔ m.HoldsPlaces places := by
    simp only [HoldsPlaces, Lacks, get?_without, if_neg (show "precision" ≠ "default" by decide)]
  constructor
  · rintro ⟨hn, hd, hp⟩
    exact ⟨(htext _ _ (by decide)).mp hn, (htext _ _ (by decide)).mp hd, hplaces.mp hp⟩
  · rintro ⟨hn, hd, hp⟩
    exact ⟨(htext _ _ (by decide)).mpr hn, (htext _ _ (by decide)).mpr hd, hplaces.mpr hp⟩

theorem holdsText_withNull {l s : String} :
    (m.withNull key).HoldsText l s ↔ (m.without key).HoldsText l s := by
  rw [HoldsText, HoldsText, ← requireText_eq_ok_iff, ← requireText_eq_ok_iff, requireText_withNull]

theorem holdsPlaces_withNull :
    (m.withNull key).HoldsPlaces places ↔ (m.without key).HoldsPlaces places := by
  rw [← precision_eq_ok_iff, ← precision_eq_ok_iff, precision_withNull]

theorem RatioSettings.withNull (h : (m.without key).RatioSettings n d places) :
    (m.withNull key).RatioSettings n d places where
  numerator := holdsText_withNull.mpr h.numerator
  denominator := holdsText_withNull.mpr h.denominator
  precision := holdsPlaces_withNull.mpr h.precision

/-! ## Operations -/

theorem fromPath_withNull (m : Metric) (key : String) (item : Json) (value : Option Json → Scalar) :
    (m.withNull key).fromPath item value = (m.without key).fromPath item value := by
  simp only [fromPath, requireText_withNull]

theorem countWhere_withNull (m : Metric) (h : key ≠ "equals") (item : Json) :
    (m.withNull key).countWhere item = (m.without key).countWhere item := by
  simp only [countWhere, requireText_withNull, get?_withNull, get?_without, if_neg h.symm]

theorem rate_withNull (m : Metric) (key : String) (computed : Values) :
    (m.withNull key).rate computed = (m.without key).rate computed := by
  simp only [rate, requireText_withNull, divisor_withNull, precision_withNull]
  rfl

theorem ratio_withNull (m : Metric) (h : key ≠ "default") (computed : Values) :
    (m.withNull key).ratio computed = (m.without key).ratio computed := by
  simp only [ratio, requireText_withNull, precision_withNull, fallback_withNull m h]
  rfl

/-- Without need for its fallback a ratio does not look at it. -/
theorem ratio_withNull_default
    (h : ∀ n d places, m.RatioSettings n d places → (reference computed d).isTruthy = true) :
    (m.withNull "default").ratio computed = (m.without "default").ratio computed := by
  simp only [ratio, requireText_withNull, precision_withNull]
  cases hn : (m.without "default").requireText "numerator" with
  | error e => rfl
  | ok n =>
    cases hd : (m.without "default").requireText "denominator" with
    | error e => rfl
    | ok d =>
      cases hp : (m.without "default").precision with
      | error e => rfl
      | ok places =>
        have htrue : (reference computed d).isTruthy = true :=
          h n d places (ratioSettings_without.mp ⟨requireText_eq_ok_iff.mp hn,
            requireText_eq_ok_iff.mp hd, precision_eq_ok_iff.mp hp⟩)
        simp only [Except.ok_bind, htrue]
        rfl

/-- A ratio that needs its fallback takes zero for one that is missing, and no null. -/
theorem RatioSettings.ratio_default (h : m.RatioSettings n d places)
    (hfalse : (reference computed d).isTruthy = false) :
    (m.withNull "default").ratio computed =
        .error (.invalidConfig m.key.text "default" "must be a number, boolean or string") ∧
      (m.without "default").ratio computed = .ok (.float 0, [.metric n, .metric d]) := by
  have hwithout := ratioSettings_without.mpr h
  constructor
  · rw [hwithout.withNull.ratio_of_false hfalse, fallback, get?_withNull, if_pos rfl]
    rfl
  · rw [hwithout.ratio_of_false hfalse, fallback, get?_without, if_pos rfl]
    rfl

end Metric

/-- **An explicit null is a missing setting**, whatever the operation, but for what a metric looks for
and for the fallback of a ratio. Where a ratio needs its fallback, null is refused. -/
theorem Operation.apply_withNull {op : Operation} {key : String}
    (h : key = "equals" → op ≠ .countWhere) (m : Metric) (item : Json) (computed : Values) :
    op.apply (m.withNull key) item computed = op.apply (m.without key) item computed ∨
      op = .ratio ∧ key = "default" ∧ ∃ n d places, m.RatioSettings n d places ∧
        (Metric.reference computed d).isTruthy = false ∧
        op.apply (m.withNull key) item computed =
          .error (.invalidConfig m.key.text "default" "must be a number, boolean or string") ∧
        op.apply (m.without key) item computed = .ok (.float 0, [.metric n, .metric d]) := by
  cases op with
  | length | wordCount | presence =>
    simp only [apply, Metric.length, Metric.wordCount, Metric.presence]
    exact .inl (Metric.fromPath_withNull m key item _)
  | countWhere => exact .inl (Metric.countWhere_withNull m (fun hkey => h hkey rfl) item)
  | rate => exact .inl (Metric.rate_withNull m key computed)
  | ratio =>
    by_cases hkey : key = "default"
    · subst hkey
      by_cases hneed : ∃ n d places, m.RatioSettings n d places ∧
          (Metric.reference computed d).isTruthy = false
      · obtain ⟨n, d, places, hs, hfalse⟩ := hneed
        exact .inr ⟨rfl, rfl, n, d, places, hs, hfalse, hs.ratio_default hfalse⟩
      · refine .inl (Metric.ratio_withNull_default fun n d places hs => ?_)
        exact Bool.eq_true_of_not_eq_false fun hfalse => hneed ⟨n, d, places, hs, hfalse⟩
    · exact .inl (Metric.ratio_withNull m hkey computed)

namespace Sample

/-- The share of what is done. -/
def completion : Metric where
  key := ⟨"completion", by decide, by decide⟩
  description := ⟨"Share of what is done", by decide, by decide⟩
  operation := ⟨"ratio", by decide, by decide⟩
  config := [("denominator", .string "total"), ("numerator", .string "done")]
  dependsOn := []

end Sample

namespace Operation

open Sample

theorem apply_withNull_sample :
    ("precision" = "equals" → Operation.ratio ≠ .countWhere) ∧
    Operation.ratio.apply (completion.withNull "precision") .null ∅ =
      Operation.ratio.apply (completion.without "precision") .null ∅ := by
  have hkey : "precision" = "equals" → Operation.ratio ≠ .countWhere := by decide
  refine ⟨hkey, (apply_withNull hkey completion .null ∅).resolve_right ?_⟩
  rintro ⟨-, hdefault, -⟩
  exact absurd hdefault (by decide)

/-- Nothing is done yet, and nothing was to be done: the share is zero, but not with a fallback that
is null. -/
theorem apply_refuses_null :
    Operation.ratio.apply (completion.withNull "default") (.object []) ∅ =
        .error (.invalidConfig "completion" "default" "must be a number, boolean or string") ∧
      Operation.ratio.apply (completion.without "default") (.object []) ∅ =
        .ok (.float 0, [.metric "done", .metric "total"]) :=
  ⟨by decide +kernel, by decide +kernel⟩

end Operation
end ItemMetrics
