import ItemMetrics.Proofs.Metric.Definition

/-! # The normal form of a definition

A definition keeps names without the blanks around them, each dependency once and a configuration
where none was given, so it can be written out and read again as it is. However its document is
spelt, it is the same (`TypeDefinition.ofJson_normalizes`). -/

namespace ItemMetrics

namespace Metric

/-- The entry that a metric is written as. -/
def toJson (m : Metric) : Json :=
  .object
    [("config", .object m.config), ("depends_on", .strings (m.dependsOn.map Label.text)),
      ("description", .string m.description.text), ("key", .string m.key.text),
      ("operation", .string m.operation.text)]

/-- Two entries that differ in the spelling of names, in repeated dependencies, or in how it is said
that there is no configuration or no dependency. -/
structure Respelt (a b : Json) : Prop where
  key : Json.RespellsAt "key" a b
  description : Json.RespellsAt "description" a b
  operation : Json.RespellsAt "operation" a b
  config : a.get? "config" = b.get? "config" ∨
    Json.Unset "config" (.object []) a ∧ Json.Unset "config" (.object []) b
  dependsOn : Json.Unset "depends_on" (.array []) a ∧ Json.Unset "depends_on" (.array []) b ∨
    ∃ items items', a.get? "depends_on" = some (.array items) ∧
      b.get? "depends_on" = some (.array items') ∧ Json.Relists items items'

variable {a b entry : Json} {m : Metric}

theorem Declared.nodup_dependsOn (h : Declared entry m) : m.dependsOn.Nodup := by
  obtain ⟨-, hnone⟩ | ⟨items, all, -, -, hkept⟩ := h.dependsOn
  · exact hnone ▸ List.nodup_nil
  · exact hkept.nodup

/-- A metric is declared by the entry that it is written as. -/
theorem declared_toJson (h : m.dependsOn.Nodup) : Declared m.toJson m where
  key := ⟨_, rfl, _, rfl, m.key.trimmed⟩
  description := ⟨_, rfl, _, rfl, m.description.trimmed⟩
  operation := ⟨_, rfl, _, rfl, m.operation.trimmed⟩
  config := .inr rfl
  dependsOn := .inr ⟨_, m.dependsOn, rfl, Json.forall₂_spells_strings _, firstOccurrences_self h⟩

theorem declared_iff :
    Declared entry m ↔ entry.HoldsLabel "key" m.key ∧ entry.HoldsLabel "description" m.description ∧
      entry.HoldsLabel "operation" m.operation ∧ config? entry = some m.config ∧
      Json.ListsAt "depends_on" entry m.dependsOn := by
  rw [Json.listsAt_iff_forall₂, config?_eq_some_iff]
  constructor
  · intro h
    exact ⟨h.key, h.description, h.operation, h.config, h.dependsOn⟩
  · rintro ⟨hkey, hdescription, hoperation, hconfig, hdependsOn⟩
    exact ⟨hkey, hdescription, hoperation, hconfig, hdependsOn⟩

theorem config?_of_unset (h : Json.Unset "config" (.object []) entry) : config? entry = some [] :=
  config?_eq_some_iff.mpr (h.imp (⟨·, rfl⟩) id)

/-- However an entry is spelt, it declares the same metric. -/
theorem Respelt.declared_iff (h : Respelt a b) : Declared a m ↔ Declared b m := by
  have hconfig : config? a = config? b := by
    rcases h.config with heq | ⟨ha, hb⟩
    · simp only [config?, heq]
    · rw [config?_of_unset ha, config?_of_unset hb]
  have hdependsOn (kept : List Label) :
      Json.ListsAt "depends_on" a kept ↔ Json.ListsAt "depends_on" b kept := by
    rcases h.dependsOn with ⟨ha, hb⟩ | ⟨items, items', ha, hb, hitems⟩
    · rw [ha.listsAt_iff, hb.listsAt_iff]
    · rw [Json.listsAt_iff ha, Json.listsAt_iff hb, hitems.lists_iff]
  rw [Metric.declared_iff, Metric.declared_iff, h.key.holdsLabel_iff, h.description.holdsLabel_iff,
    h.operation.holdsLabel_iff, hconfig, hdependsOn]

end Metric

namespace TypeDefinition

/-- The document that a definition is written as. -/
def toJson (d : TypeDefinition) : Json :=
  .object [("metrics", .array (d.metrics.map Metric.toJson)), ("type", .string d.type.text)]

/-- Two documents whose entries differ in their spelling, and the type in the blanks around it. -/
structure Respelt (a b : Json) : Prop where
  type : Json.RespellsAt "type" a b
  metrics : ∃ entries entries', a.get? "metrics" = some (.array entries) ∧
    b.get? "metrics" = some (.array entries') ∧ List.Forall₂ Metric.Respelt entries entries'

variable {a b payload : Json} {d : TypeDefinition}

theorem forall₂_declared_iff {entries entries' : List Json} {ms : List Metric}
    (h : List.Forall₂ Metric.Respelt entries entries') :
    List.Forall₂ Metric.Declared entries ms ↔ List.Forall₂ Metric.Declared entries' ms := by
  induction h generalizing ms with
  | nil => rfl
  | cons hab _ ih => cases ms <;> simp [hab.declared_iff, ih]

/-- However a document is spelt, it holds the same definition. -/
theorem Respelt.declared_iff (h : Respelt a b) : Declared a d ↔ Declared b d := by
  obtain ⟨entries, entries', ha, hb, hentries⟩ := h.metrics
  have hmetrics : List.Forall₂ Metric.Declared entries d.metrics ↔
      List.Forall₂ Metric.Declared entries' d.metrics := forall₂_declared_iff hentries
  constructor
  · rintro ⟨htype, metrics, hget, hall⟩
    cases hget.symm.trans ha
    exact ⟨h.type.holdsLabel_iff.mp htype, entries', hb, hmetrics.mp hall⟩
  · rintro ⟨htype, metrics, hget, hall⟩
    cases hget.symm.trans hb
    exact ⟨h.type.holdsLabel_iff.mpr htype, entries, ha, hmetrics.mpr hall⟩

/-- A definition is in the document that it is written as. -/
theorem Declared.toJson (h : Declared payload d) : Declared d.toJson d := by
  obtain ⟨-, entries, -, hall⟩ := h
  refine ⟨⟨_, rfl, _, rfl, d.type.trimmed⟩, _, rfl, ?_⟩
  rw [List.forall₂_map_left_iff, List.forall₂_same]
  intro m hm
  obtain ⟨entry, hentry : Metric.Declared entry m⟩ :=
    exists_forall₂_iff.mp ⟨entries, List.Forall₂.flip hall⟩ m hm
  exact Metric.declared_toJson hentry.nodup_dependsOn

/-- **What is read from a document is in its normal form.** A definition that is written out reads as
itself under any name. Documents that differ in the blanks around names, in later entries that repeat
a dependency, or in whether an empty configuration or list of dependencies is absent, null or empty
are accepted alike and read as one definition, whatever else they hold. -/
theorem ofJson_normalizes (payload : Json) (source : String) :
    (∀ d, ofJson payload source = .ok d → ∀ source', ofJson d.toJson source' = .ok d) ∧
    ∀ payload', Respelt payload payload' → ∀ source' d,
      ofJson payload source = .ok d ↔ ofJson payload' source' = .ok d := by
  simp only [ofJson_eq_ok_iff_declared]
  exact ⟨fun d hd _ => hd.toJson, fun payload' h _ d => h.declared_iff⟩

end TypeDefinition

namespace Sample

/-- An entry that leaves out what may be left out, but for its dependencies. -/
def bareEntry (key : String) (dependsOn : List String) : Json :=
  .object
    [("depends_on", .strings dependsOn), ("description", .string "Tags"), ("key", .string key),
      ("operation", .string "length")]

theorem relists_dependsOn :
    Json.Relists ([] ++ [.string "a"] ++ [.string " b"] ++ [.string "a "])
      ([] ++ [.string "a"] ++ [.string "b"]) := by
  refine .repeated (.entry (.entry .nil ?_) ?_) (by simp : .string "a" ∈ _) ?_
  · exact ⟨"a", _, _, rfl, rfl, .refl _, .refl _⟩
  · exact ⟨"b", _, _, rfl, rfl, ⟨" ", "", by decide⟩, .refl _⟩
  · exact ⟨"a", _, _, rfl, rfl, ⟨"", " ", by decide⟩, .refl _⟩

theorem respelt_entry :
    Metric.Respelt (entry " total" ["a", " b", "a "]) (bareEntry "total\n" ["a", "b"]) where
  key := ⟨_, _, rfl, rfl, "total", _, _, rfl, rfl, ⟨" ", "", by decide⟩, "", "\n", by decide⟩
  description := ⟨_, _, rfl, rfl, "Tags", _, _, rfl, rfl, ⟨"", " ", by decide⟩, .refl _⟩
  operation := ⟨_, _, rfl, rfl, "length", _, _, rfl, rfl, .refl _, .refl _⟩
  config := .inr ⟨.inl (.inr rfl), .inl (.inl rfl)⟩
  dependsOn := .inr ⟨_, _, rfl, rfl, relists_dependsOn⟩

end Sample

namespace TypeDefinition

open Sample

theorem ofJson_normalizes_sample :
    ∃ d, ofJson (document [entry " total" ["a", " b", "a "]]) "task.yaml" = .ok d ∧
      ofJson d.toJson "copy.json" = .ok d ∧
      Respelt (document [entry " total" ["a", " b", "a "]])
        (document [bareEntry "total\n" ["a", "b"]]) ∧
      ofJson (document [bareEntry "total\n" ["a", "b"]]) "other.yaml" = .ok d := by
  have hread : (ofJson (document [entry " total" ["a", " b", "a "]]) "task.yaml").map
      (fun _ => ()) = .ok () := by
    decide +kernel
  have hrespelt : Respelt (document [entry " total" ["a", " b", "a "]])
      (document [bareEntry "total\n" ["a", "b"]]) :=
    ⟨⟨_, _, rfl, rfl, "task", _, _, rfl, rfl, ⟨" ", "\n", by decide⟩, " ", "\n", by decide⟩,
      _, _, rfl, rfl, .cons respelt_entry .nil⟩
  obtain ⟨d, hd, -⟩ := Except.map_eq_ok_iff.mp hread
  obtain ⟨hcopy, hsame⟩ :=
    ofJson_normalizes (document [entry " total" ["a", " b", "a "]]) "task.yaml"
  exact ⟨d, hd, hcopy d hd _, hrespelt, (hsame _ hrespelt _ d).mp hd⟩

end TypeDefinition
end ItemMetrics
