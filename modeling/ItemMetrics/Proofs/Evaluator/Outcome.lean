import ItemMetrics.Proofs.Evaluator.Run
import ItemMetrics.Proofs.FieldPath.Cut
import ItemMetrics.Proofs.Keys

/-! # When an item can be evaluated

An item is evaluated when its type is registered, a definition is loaded for the type and a trail
leads through all the metrics of the definition (`Evaluator.outcome_eq_ok_iff`). Otherwise the first
obstacle is the failure (`Evaluator.outcome_eq_error_iff`). -/

namespace ItemMetrics

namespace Evaluator

/-- An item has a type when a text that is not empty stands under `item_type`. -/
def HasType (item : Json) (type : String) : Prop :=
  item.get? "item_type" = some (.string type) ∧ type ≠ ""

variable {ev : Evaluator} {item : Json} {type type' : String} {d : TypeDefinition} {e : Evaluation}
  {err : EvaluationError} {t : List (Metric × Computed)} {m : Metric} {log : Log}

/-- No definition applies to an item: it has no type, its type is not registered, or no definition
is loaded for its type. -/
inductive Undefined (ev : Evaluator) (item : Json) : EvaluationError → Prop where
  | missingItemType : (∀ type, ¬ HasType item type) → Undefined ev item .missingItemType
  | unknownType {type : String} : HasType item type → ev.registry.contains type = false →
    Undefined ev item (.unknownType type)
  | noDefinition {type : String} : HasType item type → ev.registry.contains type = true →
    ev.definitions.find? type = none → Undefined ev item (.noDefinition type)

/-! ## The definition for an item -/

theorem HasType.unique (h : HasType item type) (h' : HasType item type') : type = type' := by
  have := h.1.symm.trans h'.1
  cases this
  rfl

theorem HasType.itemType (h : HasType item type) : itemType item = .ok type := by
  simp [Evaluator.itemType, h.1, Json.string?, h.2]

theorem itemType_of_not_hasType (h : ∀ type, ¬ HasType item type) :
    itemType item = .error .missingItemType := by
  unfold itemType
  split
  · next type ht =>
    obtain ⟨value, hvalue, htype⟩ := Option.bind_eq_some_iff.mp ht
    cases value <;> cases htype
    split
    · rfl
    · next hne => exact absurd ⟨hvalue, hne⟩ (h type)
  · rfl

theorem HasType.definitionOf (h : HasType item type) :
    ev.definitionOf item =
      if ev.registry.contains type then (ev.definitionFor type).map (type, ·)
      else .error (.unknownType type) := by
  rw [Evaluator.definitionOf, h.itemType, Except.ok_bind]
  cases ev.registry.contains type with
  | false => rfl
  | true => cases ev.definitionFor type <;> rfl

theorem definitionFor_eq_ok_iff :
    ev.definitionFor type = .ok d ↔ ev.definitions.find? type = some d := by
  unfold definitionFor
  split <;> simp [*]

theorem definitionFor_eq_error_iff :
    ev.definitionFor type = .error err ↔
      ev.definitions.find? type = none ∧ err = .noDefinition type := by
  unfold definitionFor
  split <;> simp [*, eq_comm]

theorem definitionOf_eq_ok_iff :
    ev.definitionOf item = .ok (type, d) ↔
      HasType item type ∧ ev.registry.contains type = true ∧
        ev.definitions.find? type = some d := by
  by_cases h : ∃ type, HasType item type
  · obtain ⟨type', h⟩ := h
    rw [h.definitionOf]
    constructor
    · intro hd
      split at hd
      · next hreg =>
        obtain ⟨d', hd', heq⟩ := Except.map_eq_ok_iff.mp hd
        cases heq
        exact ⟨h, hreg, definitionFor_eq_ok_iff.mp hd'⟩
      · cases hd
    · rintro ⟨h', hreg, hd⟩
      cases h.unique h'
      rw [if_pos hreg, definitionFor_eq_ok_iff.mpr hd]
      rfl
  · rw [Evaluator.definitionOf, itemType_of_not_hasType (not_exists.mp h)]
    exact ⟨nofun, fun hd => absurd ⟨type, hd.1⟩ h⟩

theorem definitionOf_eq_error_iff : ev.definitionOf item = .error err ↔ ev.Undefined item err := by
  by_cases h : ∃ type, HasType item type
  · obtain ⟨type, h⟩ := h
    rw [h.definitionOf]
    constructor
    · intro he
      split at he
      · next hreg =>
        obtain ⟨hfind, rfl⟩ := definitionFor_eq_error_iff.mp (Except.map_eq_error_iff.mp he)
        exact .noDefinition h hreg hfind
      · next hreg =>
        cases he
        exact .unknownType h (Bool.eq_false_iff.mpr hreg)
    · intro he
      cases he with
      | missingItemType hnone => exact absurd h (hnone type)
      | unknownType h' hreg => rw [h.unique h', if_neg (Bool.eq_false_iff.mp hreg)]
      | noDefinition h' hreg hfind =>
        rw [h.unique h', if_pos hreg, Except.map_eq_error_iff, definitionFor_eq_error_iff]
        exact ⟨hfind, rfl⟩
  · have hnone := not_exists.mp h
    rw [Evaluator.definitionOf, itemType_of_not_hasType hnone]
    constructor
    · intro he
      cases he
      exact .missingItemType hnone
    · intro he
      cases he with
      | missingItemType => rfl
      | unknownType h' | noDefinition h' => exact absurd h' (hnone _)

/-! ## The outcome -/

theorem outcome_of_definitionOf (h : ev.definitionOf item = .ok (type, d)) :
    ev.outcome item =
      (d.metrics.foldlM (advance item) ⟨∅, []⟩).map fun p => ⟨type, p.values, p.provenance⟩ := by
  rw [outcome, h, Except.ok_bind]
  dsimp only
  cases d.metrics.foldlM (advance item) ⟨∅, []⟩ <;> rfl

theorem outcome_of_definitionOf_error (h : ev.definitionOf item = .error err) :
    ev.outcome item = .error err := by
  rw [outcome, h, Except.error_bind]

theorem outcome_eq_ok_iff :
    ev.outcome item = .ok e ↔
      ∃ d t, ev.definitionOf item = .ok (e.type, d) ∧ t.map Prod.fst = d.metrics ∧ Trail item t ∧
        e.values = valuesOf t ∧ e.provenance = provenanceOf t := by
  simp only [outcome, Except.bind_eq_ok_iff, run_eq_ok_iff]
  constructor
  · rintro ⟨⟨type, d⟩, hd, _, ⟨t, ht, htrail, rfl⟩, he⟩
    cases he
    exact ⟨d, t, hd, ht, htrail, rfl, rfl⟩
  · rintro ⟨d, t, hd, ht, htrail, hvalues, hprovenance⟩
    refine ⟨_, hd, _, ⟨t, ht, htrail, rfl⟩, ?_⟩
    simp only [← hvalues, ← hprovenance]
    rfl

theorem outcome_eq_error_iff :
    ev.outcome item = .error err ↔
      ev.Undefined item err ∨
        ∃ type d t m after, ev.definitionOf item = .ok (type, d) ∧
          d.metrics = t.map Prod.fst ++ m :: after ∧ Trail item t ∧
          m.compute item (valuesOf t) = .error err := by
  simp only [outcome, Except.bind_eq_error_iff, definitionOf_eq_error_iff, run_eq_error_iff]
  refine or_congr_right ⟨?_, ?_⟩
  · rintro ⟨⟨type, d⟩, hd, ⟨t, m, after, hms, ht, he⟩ | ⟨_, -, he⟩⟩
    · exact ⟨type, d, t, m, after, hd, hms, ht, he⟩
    · cases he
  · rintro ⟨type, d, t, m, after, hd, hms, ht, he⟩
    exact ⟨_, hd, .inl ⟨t, m, after, hms, ht, he⟩⟩

/-- The type of an evaluation is that of the item. -/
theorem hasType_of_outcome (h : ev.outcome item = .ok e) : HasType item e.type := by
  obtain ⟨d, _, hd, -⟩ := outcome_eq_ok_iff.mp h
  exact (definitionOf_eq_ok_iff.mp hd).1

/-! ## The entries of an evaluation -/

theorem map_key_of_map_fst (ht : t.map Prod.fst = d.metrics) :
    t.map (·.1.key.text) = d.metrics.map (·.key.text) := by
  rw [← ht, List.map_map]
  rfl

/-- On a trail through the metrics of a definition no key is set twice. -/
theorem nodup_of_map_fst (ht : t.map Prod.fst = d.metrics) : (t.map (·.1.key.text)).Nodup := by
  rw [map_key_of_map_fst ht]
  exact d.nodup_keys

theorem nodup_keys_provenance (h : ev.outcome item = .ok e) :
    (e.provenance.map Prod.fst).Nodup := by
  obtain ⟨d, t, -, ht, -, -, hprovenance⟩ := outcome_eq_ok_iff.mp h
  rw [hprovenance, provenanceOf, List.map_map]
  exact nodup_of_map_fst ht

/-- Each metric of the definition was computed from the entries before its own. -/
theorem exists_compute_eq (h : ev.outcome item = .ok e)
    (hd : ev.definitions.find? e.type = some d) {i : Nat} (hm : d.metrics[i]? = some m) :
    ∃ c, e.values.entries[i]? = some (m.key.text, c.1) ∧
      m.compute item (.ofList (e.values.entries.take i)) = .ok c := by
  obtain ⟨d', t, hd', ht, htrail, hvalues, -⟩ := outcome_eq_ok_iff.mp h
  cases hd.symm.trans (definitionOf_eq_ok_iff.mp hd').2.2
  rw [← ht, List.getElem?_map, Option.map_eq_some_iff] at hm
  obtain ⟨⟨_, c⟩, hi, rfl⟩ := hm
  have hentries := entries_valuesOf (nodup_of_map_fst ht)
  rw [hvalues, hentries, List.getElem?_map, hi, ← List.map_take]
  exact ⟨c, rfl, htrail.compute_eq hi⟩

/-- The entries stand under the keys of the metrics of the definition. -/
theorem keys_of_outcome (h : ev.outcome item = .ok e) (hd : ev.definitions.find? e.type = some d) :
    e.values.keys = d.metrics.map (·.key.text) := by
  obtain ⟨d', t, hd', ht, -, hvalues, -⟩ := outcome_eq_ok_iff.mp h
  cases hd.symm.trans (definitionOf_eq_ok_iff.mp hd').2.2
  rw [hvalues, keys_valuesOf_of_nodup (nodup_of_map_fst ht), map_key_of_map_fst ht]

end Evaluator

/-! ## A small evaluator -/

namespace Sample

def label (s : String) (h : Text.trim s = s ∧ s ≠ "" := by decide) : Label := ⟨s, h.1, h.2⟩

/-- How many tags an item has. -/
def total : Metric where
  key := label "total"
  description := label "Tags"
  operation := label "length"
  config := [("path", .string "tags")]
  dependsOn := []

/-- Whether an item has tags. -/
def tagged : Metric where
  key := label "tagged"
  description := label "Has tags"
  operation := label "exists"
  config := [("path", .string "tags")]
  dependsOn := []

/-- The number of tags of a tagged item. -/
def share : Metric where
  key := label "share"
  description := label "Tags if tagged"
  operation := label "ratio"
  config := [("denominator", .string "tagged"), ("numerator", .string "total")]
  dependsOn := [label "total"]

def definition : TypeDefinition := ⟨label "task", [total, tagged, share], by decide⟩

/-- The same metrics in another order. -/
def swapped : TypeDefinition := ⟨label "task", [tagged, total, share], by decide⟩

def registry : Registry := ⟨[⟨label "task", label "types/task.json", []⟩], by simp⟩

/-- The evaluator with one definition. -/
def evaluator (d : TypeDefinition) : Evaluator := ⟨"derived", registry, ⟨[d], by simp [typesOf]⟩⟩

def task (id : String) (tags : List String) : Json :=
  .object [("id", .string id), ("item_type", .string "task"), ("tags", .strings tags)]

theorem hasType_task (id : String) (tags : List String) : Evaluator.HasType (task id tags) "task" :=
  ⟨rfl, by decide⟩

theorem resolve_task (id : String) (tags : List String) :
    FieldPath.resolve (task id tags) "tags" = some (.strings tags) :=
  FieldPath.resolve_of_get? rfl (by decide)

theorem mem_metrics_definition {m : Metric} (h : m ∈ definition.metrics) :
    m = total ∨ m = tagged ∨ m = share := by
  simpa only [definition, List.mem_cons, List.not_mem_nil, or_false] using h

theorem find?_definitions_evaluator {d : TypeDefinition} (h : d.type.text = "task") :
    (evaluator d).definitions.find? "task" = some d := by
  simp [evaluator, Definitions.find?, h]

theorem evaluate_definition :
    ∃ e, (((evaluator definition).evaluate (task "x" ["a"])).on .disabled).1 = .ok e ∧
      e.value? "share" = some (.float 1) :=
  Except.map_eq_ok_iff.mp
    (show (((evaluator definition).evaluate (task "x" ["a"])).on .disabled).1.map
      (·.value? "share") = .ok (some (.float 1)) by decide +kernel)

end Sample

namespace Evaluator

/-- **What comes out of evaluating an item.** It is evaluated exactly when it has a registered type
with a definition and each metric can be computed from the values of those before it. The entries
then stand in the order of declaration, each as it was computed from the entries before it. Else the
failure is that of the definition or, after a trail, that of the next metric. -/
theorem evaluate_iff_trail (ev : Evaluator) (item : Json) (log : Log) :
    ((∃ e, ((ev.evaluate item).on log).1 = .ok e) ↔
      ∃ type d t, HasType item type ∧ ev.registry.contains type = true ∧
        ev.definitions.find? type = some d ∧ t.map Prod.fst = d.metrics ∧ Trail item t) ∧
    (∀ e, ((ev.evaluate item).on log).1 = .ok e →
      ∃ d, HasType item e.type ∧ ev.definitions.find? e.type = some d ∧
        e.values.keys = d.metrics.map (·.key.text) ∧
        e.provenance.map Prod.fst = d.metrics.map (·.key.text) ∧
        ∀ (i : Nat) (m : Metric), d.metrics[i]? = some m → ∃ value sources,
          e.values.entries[i]? = some (m.key.text, value) ∧
          e.provenance[i]? = some (m.key.text, sources) ∧
          m.compute item (.ofList (e.values.entries.take i)) = .ok (value, sources)) ∧
    ∀ err, ((ev.evaluate item).on log).1 = .error err ↔
      ev.Undefined item err ∨
        ∃ type d t m after, HasType item type ∧ ev.registry.contains type = true ∧
          ev.definitions.find? type = some d ∧ d.metrics = t.map Prod.fst ++ m :: after ∧
          Trail item t ∧ m.compute item (valuesOf t) = .error err := by
  simp only [fst_on_evaluate, outcome_eq_ok_iff, outcome_eq_error_iff, definitionOf_eq_ok_iff]
  refine ⟨⟨?_, ?_⟩, ?_, ?_⟩
  · rintro ⟨e, d, t, ⟨htype, hreg, hd⟩, ht, htrail, -, -⟩
    exact ⟨e.type, d, t, htype, hreg, hd, ht, htrail⟩
  · rintro ⟨type, d, t, htype, hreg, hd, ht, htrail⟩
    exact ⟨⟨type, valuesOf t, provenanceOf t⟩, d, t, ⟨htype, hreg, hd⟩, ht, htrail, rfl, rfl⟩
  · rintro ⟨type, _, _⟩ ⟨d, t, ⟨htype, hreg, hd⟩, ht, htrail, rfl, rfl⟩
    have hentries := entries_valuesOf (nodup_of_map_fst ht)
    have hkeys := map_key_of_map_fst ht
    refine ⟨d, htype, hd, ?_, ?_, fun i m hm => ?_⟩
    · rw [← hkeys, Values.keys, hentries, List.map_map]
      rfl
    · rw [← hkeys, provenanceOf, List.map_map]
      rfl
    · rw [← ht, List.getElem?_map, Option.map_eq_some_iff] at hm
      obtain ⟨⟨_, value, sources⟩, hi, rfl⟩ := hm
      refine ⟨value, sources, ?_, ?_, ?_⟩
      · rw [hentries, List.getElem?_map, hi]
        rfl
      · rw [provenanceOf, List.getElem?_map, hi]
        rfl
      · rw [hentries, ← List.map_take]
        exact htrail.compute_eq hi
  · simp only [and_assoc, implies_true]

open Sample

theorem evaluate_iff_trail_sample :
    ∃ e, (((evaluator definition).evaluate (task "x" ["a"])).on .disabled).1 = .ok e ∧
      e.values.keys = ["total", "tagged", "share"] ∧
      e.provenance.map Prod.fst = ["total", "tagged", "share"] := by
  obtain ⟨e, he, -⟩ := evaluate_definition
  obtain ⟨d, htype, hd, hkeys, hprovenance, -⟩ := (evaluate_iff_trail _ _ _).2.1 e he
  rw [htype.unique (hasType_task "x" ["a"])] at hd
  cases (find?_definitions_evaluator rfl).symm.trans hd
  exact ⟨e, he, hkeys, hprovenance⟩

example : (((evaluator definition).evaluate (task "x" ["a", "b"])).on .disabled).1.map
    (·.values.entries) = .ok [("total", .integer 2), ("tagged", .boolean true),
      ("share", .float 2)] := by
  decide +kernel

end Evaluator
end ItemMetrics
