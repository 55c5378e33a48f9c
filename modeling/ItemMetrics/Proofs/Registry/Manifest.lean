import ItemMetrics.Proofs.Document.Listing
import ItemMetrics.Proofs.Registry.History

/-! # Two ways to a manifest

A manifest is built from texts or read from a document. Blank capabilities are left out by the one
and refused by the other; where there are none the two agree, and what they give is in the form that
both leave as it is (`Manifest.ofJson_agrees_ofStrings`). -/

namespace ItemMetrics.Manifest

/-- The document that holds three texts of a manifest. -/
def written (type schema : String) (capabilities : List String) : Json :=
  .object
    [("capabilities", .strings capabilities), ("schema", .string schema), ("type", .string type)]

variable {payload : Json} {type schema source : String} {capabilities : List String} {m : Manifest}

theorem ofStrings_eq_ok_iff :
    ofStrings type schema capabilities = .ok m ↔
      Text.trim type = m.type.text ∧ Text.trim schema = m.schema.text ∧
        m.capabilities = (capabilities.filterMap Label.ofString?).eraseDups := by
  simp only [← Label.ofString?_eq_some_iff, ofStrings]
  constructor
  · intro h
    split at h
    · cases h
    · next l hl =>
      split at h
      · cases h
      · next l' hl' =>
        cases h
        exact ⟨hl, hl', rfl⟩
  · rintro ⟨htype, hschema, hcapabilities⟩
    rw [htype, hschema, ← hcapabilities]

theorem ofJson_eq_ok_iff :
    ofJson payload source = .ok m ↔
      payload.HoldsLabel "type" m.type ∧ payload.HoldsLabel "schema" m.schema ∧
        Json.ListsAt "capabilities" payload m.capabilities := by
  by_cases hobject : payload.isObject = true
  · simp only [ofJson, hobject, Bool.not_true, Bool.false_eq_true, if_false, Except.bind_eq_ok_iff,
      Except.mapError_eq_ok_iff, Json.requireLabel_eq_ok_iff, Json.bind_label?_get?_eq_some_iff]
    constructor
    · rintro ⟨type, htype, schema, hschema, all, hall, h⟩
      cases h
      exact ⟨htype, hschema, (Json.listsAt_iff_labels _).mpr ⟨all, hall, rfl⟩⟩
    · rintro ⟨htype, hschema, hcapabilities⟩
      obtain ⟨all, hall, hkept⟩ := (Json.listsAt_iff_labels _).mp hcapabilities
      exact ⟨m.type, htype, m.schema, hschema, all, hall, by rw [← hkept]; rfl⟩
  · constructor
    · intro h
      rw [ofJson, if_pos (by simpa using hobject)] at h
      cases h
    · rintro ⟨htype, -⟩
      exact absurd htype.isObject hobject

/-- A document of three texts is read as what is built from them, unless a capability is blank. -/
theorem ofJson_written_eq_ok_iff :
    ofJson (written type schema capabilities) source = .ok m ↔
      ofStrings type schema capabilities = .ok m ∧ ∀ c ∈ capabilities, Text.allBlank c = false := by
  have hlabel {key text : String} {l : Label}
      (hkey : (written type schema capabilities).get? key = some (.string text)) :
      (written type schema capabilities).HoldsLabel key l ↔ Text.trim text = l.text := by
    simp [Json.HoldsLabel, hkey, Json.Spells]
  have hcapabilities : (written type schema capabilities).get? "capabilities" =
      some (.array (capabilities.map .string)) := rfl
  rw [ofJson_eq_ok_iff, ofStrings_eq_ok_iff, hlabel rfl, hlabel rfl, Json.listsAt_iff hcapabilities,
    Json.lists_strings_iff, and_assoc, and_assoc]

/-- A manifest is what is built from its own texts. -/
theorem ofStrings_texts (h : m.Built) :
    ofStrings m.type.text m.schema.text (m.capabilities.map Label.text) = .ok m := by
  have hcapabilities :
      (m.capabilities.map Label.text).filterMap Label.ofString? = m.capabilities := by
    simp [List.filterMap_map]
  refine ofStrings_eq_ok_iff.mpr ⟨m.type.trimmed, m.schema.trimmed, ?_⟩
  rw [hcapabilities]
  exact firstOccurrences_iff.mp (firstOccurrences_self h.nodup_capabilities)

theorem ofJson_texts (h : m.Built) (source : String) :
    ofJson (written m.type.text m.schema.text (m.capabilities.map Label.text)) source = .ok m := by
  refine ofJson_written_eq_ok_iff.mpr ⟨ofStrings_texts h, fun c hc => ?_⟩
  obtain ⟨l, -, rfl⟩ := List.mem_map.mp hc
  exact l.allBlank_text

/-- **Reading a manifest and building it agree.** What is read from a document of three texts is what
is built from them; what is built from them is read from the document without the blank capabilities,
and from the document as it is exactly when there are none. A manifest that was read or built is what
is read and what is built from its own texts. -/
theorem ofJson_agrees_ofStrings :
    (∀ type schema capabilities source m,
      ofJson (written type schema capabilities) source = .ok m →
        ofStrings type schema capabilities = .ok m) ∧
    (∀ type schema capabilities m, ofStrings type schema capabilities = .ok m → ∀ source,
      ofJson (written type schema (capabilities.filter fun c => !Text.allBlank c)) source = .ok m ∧
      ((∃ m', ofJson (written type schema capabilities) source = .ok m') ↔
        ∀ c ∈ capabilities, Text.allBlank c = false)) ∧
    ∀ m : Manifest, m.Built →
      ofStrings m.type.text m.schema.text (m.capabilities.map Label.text) = .ok m ∧
      ∀ source, ofJson (written m.type.text m.schema.text (m.capabilities.map Label.text)) source =
        .ok m := by
  refine ⟨?_, ?_, fun m hm => ⟨ofStrings_texts hm, ofJson_texts hm⟩⟩
  · intro type schema capabilities source m h
    exact (ofJson_written_eq_ok_iff.mp h).1
  · intro type schema capabilities m h source
    constructor
    · refine ofJson_written_eq_ok_iff.mpr ⟨?_, fun c hc => by simpa using (List.mem_filter.mp hc).2⟩
      rw [ofStrings_eq_ok_iff, Label.filterMap_ofString?_filter]
      exact ofStrings_eq_ok_iff.mp h
    · constructor
      · rintro ⟨m', hm'⟩
        exact (ofJson_written_eq_ok_iff.mp hm').2
      · intro hnone
        exact ⟨m, ofJson_written_eq_ok_iff.mpr ⟨h, hnone⟩⟩

theorem ofJson_agrees_ofStrings_sample :
    ∃ m, ofStrings " person " "types/person.json" ["a", " a ", "", "b"] = .ok m ∧
      ofJson (written " person " "types/person.json" ["a", " a ", "b"]) "person.yaml" = .ok m ∧
      (∀ m', ofJson (written " person " "types/person.json" ["a", " a ", "", "b"]) "person.yaml" ≠
        .ok m') ∧
      m.capabilities.map Label.text = ["a", "b"] ∧
      ofJson (written "person" "types/person.json" ["a", "b"]) "copy.yaml" = .ok m := by
  have hbuild : (ofStrings " person " "types/person.json" ["a", " a ", "", "b"]).map
      (fun m => (m.type.text, m.schema.text, m.capabilities.map Label.text)) =
        .ok ("person", "types/person.json", ["a", "b"]) := by
    decide +kernel
  obtain ⟨m, hm, htexts⟩ := Except.map_eq_ok_iff.mp hbuild
  simp only [Prod.mk.injEq] at htexts
  obtain ⟨htype, hschema, hcapabilities⟩ := htexts
  obtain ⟨-, hread, hself⟩ := ofJson_agrees_ofStrings
  obtain ⟨hkept, haccepted⟩ := hread _ _ _ m hm "person.yaml"
  have hcopy := (hself m (.ofStrings hm)).2 "copy.yaml"
  rw [htype, hschema, hcapabilities] at hcopy
  refine ⟨m, hm, hkept, fun m' hm' => ?_, hcapabilities, hcopy⟩
  exact absurd (haccepted.mp ⟨m', hm'⟩ "" (by simp)) (by decide)

end ItemMetrics.Manifest
