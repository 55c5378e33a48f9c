import ItemMetrics.Proofs.FieldPath.Cut
import ItemMetrics.Proofs.Metric.Path
import ItemMetrics.Proofs.Text.Words

/-! # Words of a rich text

A rich text is an object whose `ops` insert pieces of a text one after the other. A piece may be empty
or end inside a word, and what inserts no text may stand anywhere between the pieces (`Json.Inserts`).
Since only the pieces joined together are read (`Metric.plainText_of_inserts`), a rich text has the
words of the plain text that it spells (`Metric.wordCount_of_pieces`). -/

namespace ItemMetrics

/-- The texts that the entries of a rich text insert, in order. All other entries insert none. -/
inductive Json.Inserts : List Json → List String → Prop where
  | nil : Inserts [] []
  | insert {op : Json} {ops : List Json} {piece : String} {pieces : List String} :
    op.get? "insert" = some (.string piece) → Inserts ops pieces →
    Inserts (op :: ops) (piece :: pieces)
  | skip {op : Json} {ops : List Json} {pieces : List String} :
    (∀ s, op.get? "insert" ≠ some (.string s)) → Inserts ops pieces → Inserts (op :: ops) pieces

variable {value item : Json} {ops : List Json} {pieces : List String} {m : Metric} {path : String}

theorem Json.Inserts.filterMap_eq (h : Inserts ops pieces) :
    ops.filterMap (fun op => (op.get? "insert").bind string?) = pieces := by
  induction h with
  | nil => rfl
  | insert hop _ ih => simp only [List.filterMap_cons, bind_string?_eq_some_iff.mpr hop, ih]
  | @skip op _ _ hop _ ih =>
    have hnone : (op.get? "insert").bind string? = none :=
      Option.eq_none_iff_forall_ne_some.mpr fun s hs => hop s (bind_string?_eq_some_iff.mp hs)
    simp only [List.filterMap_cons, hnone, ih]

namespace Metric

theorem plainText_of_inserts (hops : value.get? "ops" = some (.array ops))
    (h : Json.Inserts ops pieces) : plainText value = String.join pieces := by
  cases value with
  | object ms =>
    have hops : (Json.Members.get? ms "ops").bind Json.array? = some ops :=
      Json.bind_array?_eq_some_iff.mpr hops
    simp only [plainText, hops, h.filterMap_eq]
  | null | bool | number | string | array => cases hops

/-- What is neither a text nor a rich text has no text. -/
theorem plainText_of_ne (hstring : ∀ s, value ≠ .string s)
    (hops : ∀ ops, value.get? "ops" ≠ some (.array ops)) : plainText value = "" := by
  cases value with
  | string s => exact absurd rfl (hstring s)
  | object ms =>
    have hnone : (Json.Members.get? ms "ops").bind Json.array? = none :=
      Option.eq_none_iff_forall_ne_some.mpr fun ops h =>
        hops ops (Json.bind_array?_eq_some_iff.mp h)
    simp only [plainText, hnone]
  | null | bool | number | array => rfl

theorem HoldsText.wordCount_of_resolve (h : m.HoldsText "path" path)
    (hvalue : FieldPath.resolve item path = some value) :
    m.wordCount item = .ok (.ofCount (Text.countWords (plainText value)), [.path path]) := by
  rw [h.wordCount_eq, hvalue, Option.map_some, Option.getD_some, Function.comp_apply]

/-- **Rich text counts like the plain text it spells**, however that is cut into pieces. Without a
text there is nothing to count. -/
theorem wordCount_of_pieces (h : m.HoldsText "path" path) :
    (∀ (pieces : List String) (ops : List Json) (rich item item' : Json) (computed : Values),
      Json.Inserts ops pieces → rich.get? "ops" = some (.array ops) →
      FieldPath.resolve item path = some (.string (String.join pieces)) →
      FieldPath.resolve item' path = some rich →
      Operation.wordCount.apply m item' computed = Operation.wordCount.apply m item computed ∧
        ∃ n : ℕ, (Text.words (String.join pieces).toList).encard = n ∧
          Operation.wordCount.apply m item computed = .ok (.ofCount n, [.path path])) ∧
    ∀ (value item : Json) (computed : Values), FieldPath.resolve item path = some value →
      (∀ s, value ≠ .string s) → (∀ ops, value.get? "ops" ≠ some (.array ops)) →
      Operation.wordCount.apply m item computed = .ok (.integer 0, [.path path]) := by
  constructor
  · intro pieces ops rich item item' computed hinserts hops hplain hrich
    have hitem : m.wordCount item =
        .ok (.ofCount (Text.countWords (String.join pieces)), [.path path]) := by
      rw [h.wordCount_of_resolve hplain, plainText]
    have hitem' : m.wordCount item' =
        .ok (.ofCount (Text.countWords (String.join pieces)), [.path path]) := by
      rw [h.wordCount_of_resolve hrich, plainText_of_inserts hops hinserts]
    refine ⟨hitem'.trans hitem.symm, Text.countWords (String.join pieces), ?_, hitem⟩
    rw [Text.encard_words, Text.countWords_eq]
  · intro value item computed hvalue hstring hops
    change m.wordCount item = _
    rw [h.wordCount_of_resolve hvalue, plainText_of_ne hstring hops]
    rfl

end Metric

namespace Sample

/-- Counts the words of a note. -/
def words : Metric where
  key := ⟨"words", by decide, by decide⟩
  description := ⟨"Words of the note", by decide, by decide⟩
  operation := ⟨"word_count", by decide, by decide⟩
  config := [("path", .string "body")]
  dependsOn := []

def note (body : Json) : Json :=
  .object [("body", body)]

theorem resolve_note (body : Json) : FieldPath.resolve (note body) "body" = some body :=
  FieldPath.resolve_of_get? rfl (by decide)

/-- A text in pieces, with a picture and other entries that insert no text between them. -/
def greeting : List Json :=
  [.object [("insert", .string "Hel")], .object [("retain", .bool true)], .string "insert",
    .object [("insert", .string "")], .object [("insert", .object [("image", .string "wave.png")])],
    .object [("attributes", .null), ("insert", .string "lo wor")], .object [("insert", .string "ld")]]

end Sample

namespace Metric

open Sample

theorem wordCount_of_pieces_sample :
    words.HoldsText "path" "body" ∧ Json.Inserts greeting ["Hel", "", "lo wor", "ld"] ∧
    Operation.wordCount.apply words (note (.object [("ops", .array greeting)])) ∅ =
      .ok (.integer 2, [.path "body"]) ∧
    Operation.wordCount.apply words (note (.string "Hello world")) ∅ =
      .ok (.integer 2, [.path "body"]) ∧
    Operation.wordCount.apply words (note (.array greeting)) ∅ =
      .ok (.integer 0, [.path "body"]) := by
  have hpath : words.HoldsText "path" "body" := ⟨rfl, by decide⟩
  have hinserts : Json.Inserts greeting ["Hel", "", "lo wor", "ld"] := by
    refine .insert rfl (.skip (fun s h => ?_) (.skip (fun s h => ?_) (.insert rfl
      (.skip (fun s h => ?_) (.insert rfl (.insert rfl .nil))))))
    all_goals cases h
  have hjoin : String.join ["Hel", "", "lo wor", "ld"] = "Hello world" := by decide
  obtain ⟨hpieces, htextless⟩ := wordCount_of_pieces hpath
  obtain ⟨hsame, n, hn, hcount⟩ := hpieces _ _ (.object [("ops", .array greeting)])
    (note (.string "Hello world")) (note (.object [("ops", .array greeting)])) ∅ hinserts rfl
    (hjoin ▸ resolve_note _) (resolve_note _)
  have htwo : n = 2 := by
    rw [Text.encard_words, hjoin] at hn
    exact_mod_cast hn.symm.trans (congrArg Nat.cast (by decide))
  subst htwo
  refine ⟨hpath, hinserts, hsame.trans hcount, hcount, ?_⟩
  exact htextless _ _ ∅ (resolve_note _) (fun s h => by cases h) (fun ops h => by cases h)

end Metric
end ItemMetrics
