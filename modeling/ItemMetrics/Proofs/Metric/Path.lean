import ItemMetrics.Proofs.Metric.Counting

/-! # Operations on one path

Four operations read the value at a path, each in its own way: its entries, the entries that match, its
words, its truth. What they come to fits together (`Operation.apply_consistent`): no more entries match
than there are, and what has entries or words is true. -/

namespace ItemMetrics

/-- An array or an object. -/
inductive Json.IsCollection : Json → Prop where
  | array (items : List Json) : IsCollection (.array items)
  | object (members : Json.Members) : IsCollection (.object members)

namespace Metric

variable {m : Metric} {value : Json} {path field : String}

/-! ## Words and presence -/

theorem HoldsText.wordCount_eq (h : m.HoldsText "path" path) (item : Json) :
    m.wordCount item =
      .ok (.ofCount (((FieldPath.resolve item path).map (Text.countWords ∘ plainText)).getD 0),
        [.path path]) :=
  h.fromPath_eq item _

theorem HoldsText.presence_eq (h : m.HoldsText "path" path) (item : Json) :
    m.presence item =
      .ok (.boolean ((FieldPath.resolve item path).any Json.isTruthy), [.path path]) :=
  h.fromPath_eq item _

/-! ## How they fit together -/

theorem entryCount_pos_iff :
    0 < entryCount value ↔ value.isTruthy = true ∧ value.IsCollection := by
  cases value with
  | array xs =>
    have hcollection : (Json.array xs).IsCollection := .array xs
    simp [entryCount, Json.isTruthy, hcollection, List.length_pos_iff]
  | object ms =>
    have hcollection : (Json.object ms).IsCollection := .object ms
    simp [entryCount, Json.isTruthy, hcollection, List.length_pos_iff]
  | null | bool | number | string =>
    refine iff_of_false (Nat.lt_irrefl 0) ?_
    rintro ⟨-, ⟨⟩⟩

theorem matchCount_le_entryCount (field : String) (sought value : Json) :
    matchCount field sought value ≤ entryCount value := by
  cases value with
  | array xs => exact List.countP_le_length
  | null | bool | number | string | object => exact Nat.zero_le _

/-- What is not true has no text. -/
theorem plainText_of_not_isTruthy (h : value.isTruthy = false) : plainText value = "" := by
  cases value with
  | string s =>
    rw [plainText]
    simpa [Json.isTruthy] using h
  | object ms =>
    obtain rfl : ms = [] := by simpa [Json.isTruthy] using h
    rfl
  | null | bool | number | array => rfl

theorem isTruthy_of_countWords_pos (h : 0 < Text.countWords (plainText value)) :
    value.isTruthy = true := by
  by_contra hfalse
  rw [plainText_of_not_isTruthy (Bool.eq_false_iff.mpr hfalse)] at h
  exact absurd h (by decide)

end Metric

/-- **Operations on one path agree.** Each of them succeeds, whatever was computed before. -/
theorem Operation.apply_consistent {path field : String} {l c w p : Metric}
    (hl : l.HoldsText "path" path) (hc : c.CountsAt path field) (hw : w.HoldsText "path" path)
    (hp : p.HoldsText "path" path) (item : Json) :
    ∃ (total matching words : Int64) (present : Bool),
      (∀ computed : Values,
        Operation.length.apply l item computed = .ok (.integer total, [.path path]) ∧
        Operation.countWhere.apply c item computed = .ok (.integer matching, [.path path]) ∧
        Operation.wordCount.apply w item computed = .ok (.integer words, [.path path]) ∧
        Operation.presence.apply p item computed = .ok (.boolean present, [.path path])) ∧
      0 ≤ matching.toInt ∧ matching.toInt ≤ total.toInt ∧
      (0 < total.toInt ↔ present = true ∧
        ∃ value, FieldPath.resolve item path = some value ∧ value.IsCollection) ∧
      (0 < words.toInt → present = true) ∧
      (FieldPath.resolve item path = none →
        total = 0 ∧ matching = 0 ∧ words = 0 ∧ present = false) := by
  have hlength := hl.length_eq item
  have hcountWhere := hc.countWhere_eq_matchCount item
  have hwordCount := hw.wordCount_eq item
  have hpresence := hp.presence_eq item
  cases hfound : FieldPath.resolve item path with
  | none =>
    rw [hfound] at hlength hcountWhere hwordCount hpresence
    refine ⟨0, 0, 0, false, fun computed => ⟨hlength, hcountWhere, hwordCount, hpresence⟩, ?_⟩
    simp
  | some value =>
    rw [hfound] at hlength hcountWhere hwordCount hpresence
    obtain ⟨total, htotal, hntotal⟩ := Metric.exists_ofCount (Metric.entryCount value)
    obtain ⟨matching, hmatching, hnmatching⟩ :=
      Metric.exists_ofCount (Metric.matchCount field c.needle value)
    obtain ⟨words, hwords, hnwords⟩ :=
      Metric.exists_ofCount (Text.countWords (Metric.plainText value))
    rw [Option.map_some, Option.getD_some, htotal] at hlength
    rw [Option.map_some, Option.getD_some, hmatching] at hcountWhere
    rw [Option.map_some, Option.getD_some, Function.comp_apply, hwords] at hwordCount
    refine ⟨total, matching, words, value.isTruthy,
      fun computed => ⟨hlength, hcountWhere, hwordCount, hpresence⟩, ?_, ?_, ?_, ?_, nofun⟩
    · omega
    · have hle := Metric.matchCount_le_entryCount field c.needle value
      omega
    · have hpos : 0 < total.toInt ↔ 0 < Metric.entryCount value := by omega
      simp only [hpos, Metric.entryCount_pos_iff, Option.some.injEq, exists_eq_left']
    · intro hpos
      exact Metric.isTruthy_of_countWords_pos (by omega)

namespace Operation

open Sample

/-- Two of the three rows match. -/
theorem apply_consistent_sample :
    (rowsWith "done" (.bool true)).CountsAt "rows" "done" ∧
    ∃ total matching : Int64,
      Operation.length.apply (rowsWith "done" (.bool true))
        (rows "done" [integer 1, .bool true, integer 2]) ∅ = .ok (.integer total, [.path "rows"]) ∧
      Operation.countWhere.apply (rowsWith "done" (.bool true))
        (rows "done" [integer 1, .bool true, integer 2]) ∅ =
          .ok (.integer matching, [.path "rows"]) ∧
      matching.toInt ≤ total.toInt ∧
      (0 < total.toInt →
        Operation.presence.apply (rowsWith "done" (.bool true))
          (rows "done" [integer 1, .bool true, integer 2]) ∅ = .ok (.boolean true, [.path "rows"])) := by
  have hat : (rowsWith "done" (.bool true)).CountsAt "rows" "done" :=
    countsAt_rowsWith (by decide) _
  obtain ⟨total, matching, words, present, happly, -, hle, hpos, -⟩ :=
    apply_consistent hat.path hat hat.path hat.path
      (rows "done" [integer 1, .bool true, integer 2])
  obtain ⟨htotal, hmatching, -, hpresent⟩ := happly ∅
  refine ⟨hat, total, matching, htotal, hmatching, hle, fun htrue => ?_⟩
  rw [hpresent, (hpos.mp htrue).1]

end Operation
end ItemMetrics
