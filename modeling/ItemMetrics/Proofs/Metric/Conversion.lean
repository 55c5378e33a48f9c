import ItemMetrics.Proofs.FieldPath.Cut
import ItemMetrics.Proofs.Metric.Path

/-! # Values and JSON

A value comes from JSON and goes back to it. What JSON gives a value which shows in one relation
(`Json.Converts`); from it follow the way back, the truth and the number of a value
(`Scalar.conversions_agree`). An integer that no signed word holds comes back as a double, and a double
that is not finite becomes null, which is no value. -/

namespace ItemMetrics

namespace Json

/-- A value of JSON is taken over as a value of a metric. -/
inductive Converts : Json → Scalar → Prop where
  | boolean (b : Bool) : Converts (.bool b) (.boolean b)
  | text (s : String) : Converts (.string s) (.text s)
  | integer (i : Int64) {lower upper} : Converts (.number (.int i.toInt lower upper)) (.integer i)
  | large {n : Int} {lower upper} : 2 ^ 63 ≤ n →
    Converts (.number (.int n lower upper)) (.float (Float.ofInt n))
  | float {x : Float} {finite} : Converts (.number (.float x finite)) (.float x)

/-- An integer that no signed word of 64 bits holds. -/
inductive IsLarge : Json → Prop where
  | intro {n : Int} {lower upper} : 2 ^ 63 ≤ n → IsLarge (.number (.int n lower upper))

end Json

namespace Scalar

variable {json : Json} {value : Scalar}

theorem ofJson?_eq_some_iff : ofJson? json = some value ↔ json.Converts value := by
  constructor
  · intro h
    unfold ofJson? at h
    split at h
    · cases h
      exact .boolean _
    · next number =>
      cases number with
      | float x finite =>
        cases h
        exact .float
      | int n lower upper =>
        rw [Json.Number.toInt64?] at h
        by_cases hn : n < 0x8000000000000000
        · obtain ⟨i, rfl⟩ : ∃ i : Int64, i.toInt = n :=
            ⟨.ofInt n, Int64.toInt_ofInt_of_le (by omega) (by omega)⟩
          rw [if_pos hn, Int64.ofInt_toInt] at h
          cases h
          exact .integer i
        · rw [if_neg hn] at h
          cases h
          exact .large (by omega)
    · cases h
      exact .text _
    · cases h
  · intro h
    cases h with
    | boolean | text | float => rfl
    | integer i =>
      have hi := i.toInt_lt
      rw [ofJson?, Json.Number.toInt64?, if_pos (by omega), Int64.ofInt_toInt]
    | @large n lower upper hn =>
      rw [ofJson?, Json.Number.toInt64?, if_neg (by omega)]
      rfl

/-! ## The way back -/

theorem toJson_float {x : Float} (h : x.isFinite = true) :
    toJson (.float x) = .number (.float x h) := by
  simp only [toJson, Json.Number.ofFloat?, dif_pos h]

theorem Finite.converts_toJson (h : value.Finite) : value.toJson.Converts value := by
  cases value with
  | integer i => exact .integer i
  | boolean b => exact .boolean b
  | text s => exact .text s
  | float x =>
    rw [toJson_float h]
    exact .float

/-- The text of a value is the text of its JSON. -/
theorem write_eq_compact (value : Scalar) : value.write = value.toJson.compact := by
  cases value with
  | integer | boolean | text => rfl
  | float x =>
    rw [write]
    split
    · next h => rw [toJson_float h, Json.compact, Json.Number.write]
    · next h =>
      have hnull : toJson (.float x) = .null := toJson_of_not_finite h
      rw [hnull]
      rfl

end Scalar

namespace Json.Converts

variable {json : Json} {value : Scalar} {n : Json.Number}

/-- An integer comes back as it was, unless it is too large for a signed word. -/
theorem toJson_eq_iff (h : json.Converts value) : value.toJson = json ↔ ¬ json.IsLarge := by
  cases h with
  | boolean | text =>
    refine iff_of_true rfl ?_
    rintro ⟨⟩
  | integer i =>
    have hi := i.toInt_lt
    refine iff_of_true rfl ?_
    rintro ⟨hlarge⟩
    omega
  | @large n lower upper hn =>
    refine iff_of_false (fun heq => ?_) (fun hlarge => hlarge (.intro hn))
    have hconverts : (Json.number (.int n lower upper)).Converts (.float (Float.ofInt n)) := .large hn
    have hfinite := Scalar.finite_of_ofJson? (Scalar.ofJson?_eq_some_iff.mpr hconverts)
    rw [Scalar.toJson_float hfinite] at heq
    cases heq
  | @float x finite =>
    refine iff_of_true (Scalar.toJson_float finite) ?_
    rintro ⟨⟩

theorem isTruthy_eq (h : json.Converts value) : value.isTruthy = json.isTruthy := by
  cases h with
  | boolean | text | large | float => rfl
  | @integer i lower upper =>
    rw [Bool.eq_iff_iff, Json.isTruthy, Json.Number.toFloat_bne_zero_iff,
      Json.Number.isZero_int_iff, Scalar.isTruthy, bne_iff_ne]
    exact not_congr Int64.toInt_inj.symm

theorem toFloat?_eq (h : (Json.number n).Converts value) : value.toFloat? = some n.toFloat := by
  cases h <;> rfl

end Json.Converts

/-- **Values and JSON agree.** A value is written as its JSON is, and comes back from there if it is
finite. What JSON gives a value is a truth value, a number or a text; that value goes back to the same
JSON, except for a large integer, is as true as the presence of the JSON, and is the same number. -/
theorem Scalar.conversions_agree :
    (∀ value : Scalar, value.write = value.toJson.compact ∧
      (value.Finite → ofJson? value.toJson = some value) ∧
      (¬ value.Finite → value.toJson = .null ∧ ofJson? value.toJson = none)) ∧
    ∀ json : Json, ((∃ value, ofJson? json = some value) ↔ json.Plain) ∧
      ∀ value, ofJson? json = some value →
        (value.toJson = json ↔ ¬ json.IsLarge) ∧
        (∀ (m : Metric) (path : String) (item : Json) (computed : Values),
          m.HoldsText "path" path → FieldPath.resolve item path = some json →
          Operation.presence.apply m item computed =
            .ok (.boolean value.isTruthy, [.path path])) ∧
        ∀ n, json = .number n → value.toFloat? = some n.toFloat := by
  constructor
  · intro value
    refine ⟨write_eq_compact value, fun h => ofJson?_eq_some_iff.mpr h.converts_toJson, fun h => ?_⟩
    rw [toJson_of_not_finite h]
    exact ⟨rfl, rfl⟩
  · intro json
    constructor
    · rw [← Option.ne_none_iff_exists', ne_eq, ofJson?_eq_none_iff, not_not]
    · intro value h
      have hconverts := ofJson?_eq_some_iff.mp h
      refine ⟨hconverts.toJson_eq_iff, fun m path item computed hpath hvalue => ?_, ?_⟩
      · have hpresence := hpath.presence_eq item
        rw [hvalue, Option.any_some, ← hconverts.isTruthy_eq] at hpresence
        exact hpresence
      · rintro n rfl
        exact hconverts.toFloat?_eq

namespace Scalar

/-- The least integer that is too large, and a double that is not finite. -/
theorem conversions_agree_sample :
    ofJson? (Sample.integer 0x8000000000000000) = some (.float (Float.ofInt 0x8000000000000000)) ∧
    toJson (.float (Float.ofInt 0x8000000000000000)) ≠ Sample.integer 0x8000000000000000 ∧
    Operation.presence.apply (Sample.rowsWith "done" .null)
      (.object [("rows", Sample.integer 0x8000000000000000)]) ∅ =
        .ok (.boolean true, [.path "rows"]) ∧
    ofJson? (toJson (.text "done")) = some (.text "done") ∧
    toJson (.float (1 / 0)) = .null := by
  have hlarge : ofJson? (Sample.integer 0x8000000000000000) =
      some (.float (Float.ofInt 0x8000000000000000)) := ofJson?_eq_some_iff.mpr (.large (by decide))
  have hpath : (Sample.rowsWith "done" .null).HoldsText "path" "rows" :=
    (Sample.countsAt_rowsWith (by decide) _).path
  have hinfinite : ¬ (1 / 0 : Float).isFinite = true := by decide +kernel
  obtain ⟨hvalues, hjson⟩ := conversions_agree
  obtain ⟨hback, htrue, -⟩ := (hjson _).2 _ hlarge
  refine ⟨hlarge, fun heq => hback.mp heq (.intro (by decide)), ?_, (hvalues (.text "done")).2.1 trivial,
    ((hvalues (.float (1 / 0))).2.2 hinfinite).1⟩
  exact htrue _ "rows" _ ∅ hpath (FieldPath.resolve_of_get? rfl (by decide))

end Scalar
end ItemMetrics
