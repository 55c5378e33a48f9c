import ItemMetrics.Proofs.Metric.Finite

/-! # The settings of a quotient

What the configuration of a ratio or a rate has to hold: names of metrics, the constant to divide by,
the number of places, the fallback. Each reader accepts exactly that and says of the rest whether it
is missing or invalid (`Metric.requireText_eq_error_iff`, `divisor_eq_error_iff`,
`precision_eq_error_iff`, `fallback_eq_error_iff`). -/

namespace ItemMetrics

namespace Json

/-- A text that is not empty. -/
def IsText (value : Json) : Prop :=
  ∃ s, value = .string s ∧ s ≠ ""

/-- A number other than zero. -/
def IsDivisor (value : Json) : Prop :=
  ∃ n : Json.Number, value = .number n ∧ ¬ n.IsZero

/-- An integer that a signed word of 32 bits holds. -/
inductive IsPlaces : Json → Int → Prop where
  | intro {n : Int} {lower upper} : -2 ^ 31 ≤ n → n < 2 ^ 31 →
    IsPlaces (.number (.int n lower upper)) n

end Json

namespace Metric

/-- There is nothing under a key, or null. -/
def Lacks (m : Metric) (key : String) : Prop :=
  m.config.get? key = none ∨ m.config.get? key = some .null

/-- Something other than null stands under a key and is not as it should be. -/
def Misuses (m : Metric) (key : String) (good : Json → Prop) : Prop :=
  ∃ value, m.config.get? key = some value ∧ value ≠ .null ∧ ¬ good value

/-- How a setting that has to be there is refused. -/
inductive Refused (m : Metric) (key : String) (good : Json → Prop) (reason : String) :
    EvaluationError → Prop where
  | missing : m.Lacks key → Refused m key good reason (.missingConfig m.key.text key)
  | invalid : m.Misuses key good →
    Refused m key good reason (.invalidConfig m.key.text key reason)

/-- A text that is not empty stands under a key. -/
def HoldsText (m : Metric) (key s : String) : Prop :=
  m.config.get? key = some (.string s) ∧ s ≠ ""

/-- The constant of a rate is a number other than zero, and this is its double. -/
def HoldsDivisor (m : Metric) (y : Float) : Prop :=
  ∃ n : Json.Number, m.config.get? "per" = some (.number n) ∧ ¬ n.IsZero ∧ n.toFloat = y

/-- The number of places to round to, if there is one. -/
def HoldsPlaces (m : Metric) (places : Option Int) : Prop :=
  m.Lacks "precision" ∧ places = none ∨
    ∃ value n, m.config.get? "precision" = some value ∧ value.IsPlaces n ∧ places = some n

/-- What stands in for a quotient. It is zero where nothing is said. -/
def HoldsFallback (m : Metric) (value : Scalar) : Prop :=
  m.config.get? "default" = none ∧ value = .float 0 ∨
    ∃ json, m.config.get? "default" = some json ∧ Scalar.ofJson? json = some value

/-- The fallback is null, an array or an object. -/
def MisusesFallback (m : Metric) : Prop :=
  ∃ value, m.config.get? "default" = some value ∧ ¬ value.Plain

end Metric

/-! ## Single values -/

theorem Scalar.ofJson?_eq_none_iff {value : Json} : ofJson? value = none ↔ ¬ value.Plain := by
  cases value with
  | bool b => exact iff_of_false (fun h => by cases h) (fun h => h (.bool b))
  | number n =>
    refine iff_of_false (fun h => ?_) (fun h => h (.number n))
    unfold ofJson? at h
    dsimp only at h
    split at h <;> cases h
  | string s => exact iff_of_false (fun h => by cases h) (fun h => h (.string s))
  | null | array | object => exact iff_of_true rfl (fun h => by cases h)

namespace Metric

variable {m : Metric} {key : String} {e e' : EvaluationError} {y : Float} {places : Option Int}
  {value : Scalar} {json : Json} {n : Int}

theorem HoldsText.fromPath_eq {path : String} (h : m.HoldsText "path" path) (item : Json)
    (value : Option Json → Scalar) :
    m.fromPath item value = .ok (value (FieldPath.resolve item path), [.path path]) := by
  rw [fromPath, requireText_eq_ok_iff.mpr h, Except.ok_bind]
  rfl

theorem smallInteger?_eq_some_iff : smallInteger? json = some n ↔ json.IsPlaces n := by
  constructor
  · intro h
    unfold smallInteger? at h
    split at h
    · next number =>
      obtain ⟨i, hi, h⟩ := Option.bind_eq_some_iff.mp h
      obtain ⟨hbounds, h⟩ := Option.ite_none_right_eq_some.mp h
      cases h
      cases number with
      | float => cases hi
      | int k hlow hup =>
        obtain ⟨hk, hi⟩ := Option.ite_none_right_eq_some.mp hi
        cases hi
        rw [Int64.toInt_ofInt_of_le (by omega) (by omega)] at hbounds ⊢
        exact .intro hbounds.1 hbounds.2
    · cases h
  · rintro ⟨hlow, hup⟩
    have hword : (Int64.ofInt n).toInt = n := Int64.toInt_ofInt_of_le (by omega) (by omega)
    rw [smallInteger?, Json.Number.toInt64?, if_pos (by omega), Option.bind_some, hword,
      if_pos (by omega)]

theorem smallInteger?_eq_none_iff : smallInteger? json = none ↔ ¬ ∃ n, json.IsPlaces n := by
  simp only [← smallInteger?_eq_some_iff, not_exists, Option.eq_none_iff_forall_ne_some]

/-! ## Settings that have to be there -/

theorem Misuses.not_lacks {good : Json → Prop} (h : m.Misuses key good) : ¬ m.Lacks key := by
  obtain ⟨value, hvalue, hnull, -⟩ := h
  rintro (h | h)
  · cases hvalue.symm.trans h
  · cases hvalue.symm.trans h
    exact hnull rfl

theorem Refused.unique {good : Json → Prop} {reason : String} (h : m.Refused key good reason e)
    (h' : m.Refused key good reason e') : e = e' := by
  cases h with
  | missing hlacks =>
    cases h' with
    | missing => rfl
    | invalid hmisuses => exact absurd hlacks hmisuses.not_lacks
  | invalid hmisuses =>
    cases h' with
    | missing hlacks => exact absurd hlacks hmisuses.not_lacks
    | invalid => rfl

/-- A reader that accepts only what is good, and refuses the rest for being missing or invalid. -/
theorem eq_error_iff_refused {α : Type} {x : Except EvaluationError α} {good : Json → Prop}
    {reason : String} (hok : ∀ a, x = .ok a → ∃ value, m.config.get? key = some value ∧ good value)
    (herror : ∀ e, x = .error e → m.Refused key good reason e) (hnull : ¬ good .null) :
    x = .error e ↔ m.Refused key good reason e := by
  refine ⟨herror e, fun h => ?_⟩
  cases hx : x with
  | error e' => rw [h.unique (herror e' hx)]
  | ok a =>
    obtain ⟨value, hvalue, hgood⟩ := hok a hx
    cases h with
    | missing hlacks =>
      obtain h | h := hlacks
      · cases hvalue.symm.trans h
      · cases hvalue.symm.trans h
        exact absurd hgood hnull
    | invalid hmisuses =>
      obtain ⟨value', hvalue', -, hbad⟩ := hmisuses
      cases hvalue.symm.trans hvalue'
      exact absurd hgood hbad

theorem refused_of_requireText (h : m.requireText key = .error e) :
    m.Refused key Json.IsText "must be a non-empty string" e := by
  unfold requireText at h
  split at h
  · next hnone =>
    cases h
    exact .missing (.inl hnone)
  · next hnull =>
    cases h
    exact .missing (.inr hnull)
  · next s hs =>
    split at h
    · next hempty =>
      cases h
      refine .invalid ⟨_, hs, Json.noConfusion, ?_⟩
      rintro ⟨t, ht, hne⟩
      cases ht
      exact hne hempty
    · cases h
  · next value hnull hstring hvalue =>
    cases h
    refine .invalid ⟨value, hvalue, hnull, ?_⟩
    rintro ⟨s, rfl, -⟩
    exact hstring s rfl

theorem requireText_eq_error_iff :
    m.requireText key = .error e ↔ m.Refused key Json.IsText "must be a non-empty string" e := by
  refine eq_error_iff_refused (fun s hs => ?_) (fun _ => refused_of_requireText) ?_
  · obtain ⟨hs, hne⟩ := requireText_eq_ok_iff.mp hs
    exact ⟨_, hs, s, rfl, hne⟩
  · rintro ⟨s, hs, -⟩
    cases hs

theorem divisor_eq_ok_iff_holds : m.divisor = .ok y ↔ m.HoldsDivisor y := by
  simp only [divisor_eq_ok_iff, HoldsDivisor, Json.Number.toFloat_bne_zero_iff]

theorem refused_of_divisor (h : m.divisor = .error e) :
    m.Refused "per" Json.IsDivisor "must be a non-zero number" e := by
  unfold divisor at h
  split at h
  · next hnone =>
    cases h
    exact .missing (.inl hnone)
  · next hnull =>
    cases h
    exact .missing (.inr hnull)
  · next per hper =>
    split at h
    · cases h
    · next hzero =>
      cases h
      refine .invalid ⟨_, hper, Json.noConfusion, ?_⟩
      rintro ⟨n, hn, hne⟩
      cases hn
      exact hzero (per.toFloat_bne_zero_iff.mpr hne)
  · next value hnull hnumber hvalue =>
    cases h
    refine .invalid ⟨value, hvalue, hnull, ?_⟩
    rintro ⟨n, rfl, -⟩
    exact hnumber n rfl

theorem divisor_eq_error_iff :
    m.divisor = .error e ↔ m.Refused "per" Json.IsDivisor "must be a non-zero number" e := by
  refine eq_error_iff_refused (fun y hy => ?_) (fun _ => refused_of_divisor) ?_
  · obtain ⟨n, hn, hne, -⟩ := divisor_eq_ok_iff_holds.mp hy
    exact ⟨_, hn, n, rfl, hne⟩
  · rintro ⟨n, hn, -⟩
    cases hn

/-! ## Settings that may be missing -/

theorem precision_eq_ok_iff : m.precision = .ok places ↔ m.HoldsPlaces places := by
  unfold precision HoldsPlaces Lacks
  split
  · next hnone => simp [hnone, eq_comm]
  · next hnull =>
    simp only [hnull, reduceCtorEq, Option.some.injEq, false_or, true_and, Except.ok.injEq]
    constructor
    · exact fun h => .inl h.symm
    · rintro (h | ⟨_, n, rfl, hn, -⟩)
      · exact h.symm
      · cases hn
  · next value hnull hvalue =>
    have hne : value ≠ .null := hnull
    simp only [hvalue, reduceCtorEq, Option.some.injEq, hne, false_or, false_and, exists_and_left,
      exists_eq_left', ← smallInteger?_eq_some_iff]
    cases smallInteger? value <;> simp [eq_comm]

theorem precision_eq_error_iff :
    m.precision = .error e ↔
      m.Misuses "precision" (fun value => ∃ n, value.IsPlaces n) ∧
        e = .invalidConfig m.key.text "precision" "must be an integer" := by
  unfold precision Misuses
  split
  · next hnone => simp [hnone]
  · next hnull => simp [hnull]
  · next value hnull hvalue =>
    have hne : value ≠ .null := hnull
    simp only [hvalue, Option.some.injEq, exists_eq_left', ← smallInteger?_eq_none_iff]
    cases smallInteger? value <;> simp [eq_comm, hne]

theorem fallback_eq_ok_iff : m.fallback = .ok value ↔ m.HoldsFallback value := by
  unfold fallback HoldsFallback
  split
  · next hnone => simp [hnone, eq_comm]
  · next json hjson =>
    simp only [hjson, reduceCtorEq, false_and, false_or, Option.some.injEq, exists_eq_left']
    cases Scalar.ofJson? json <;> simp

theorem fallback_eq_error_iff :
    m.fallback = .error e ↔
      m.MisusesFallback ∧
        e = .invalidConfig m.key.text "default" "must be a number, boolean or string" := by
  unfold fallback MisusesFallback
  split
  · next hnone => simp [hnone]
  · next json hjson =>
    simp only [hjson, Option.some.injEq, exists_eq_left', ← Scalar.ofJson?_eq_none_iff]
    cases Scalar.ofJson? json <;> simp [eq_comm]

end Metric
end ItemMetrics
