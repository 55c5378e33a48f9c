import ItemMetrics.Proofs.Evaluator.Events
import ItemMetrics.Proofs.Json.Members

/-! # What shows an evaluation

An evaluation is looked at through its accessors, serialised in the order of declaration, built as a
tree in the order of keys, and reported in events. All of them show the same rows, one for each
metric (`Evaluation.Shows`), and an item that is evaluated has such rows
(`Evaluator.evaluate_shows`). -/

namespace ItemMetrics

namespace Evaluation

/-- What is shown of a metric: its value and the tags of its sources. -/
structure Row where
  key : String
  value : Scalar
  tags : List String

/-- An event reports a row. -/
structure Row.ReportedBy (r : Row) (event : Event) : Prop where
  name : event.name = "derived.metric"
  metric : event.attribute? "metric" = some (.string r.key)
  value : event.attribute? "value" = some r.value.toJson
  sources : event.attribute? "sources" = some (.strings r.tags)

/-- An evaluation and its events show the rows, each key once. `sorted` are the keys in increasing
order. -/
structure Shows (e : Evaluation) (es : List Event) (rows : List Row) (sorted : List String) :
    Prop where
  nodup : (rows.map Row.key).Nodup
  perm : sorted.Perm (rows.map Row.key)
  increasing : sorted.Pairwise (· < ·)
  value? : ∀ r ∈ rows, e.value? r.key = some r.value
  tags : ∀ r ∈ rows, e.tags r.key = r.tags
  serialised : e.toJson = .object
    [("type", .string e.type),
      ("values", .object (rows.map fun r => (r.key, r.value.toJson))),
      ("provenance", .object (rows.map fun r => (r.key, .strings r.tags)))]
  tree : ∃ values provenance : Json.Members,
    e.tree = .object
      [("provenance", .object provenance), ("type", .string e.type), ("values", .object values)] ∧
    values.map Prod.fst = sorted ∧ provenance.map Prod.fst = sorted ∧
    ∀ r ∈ rows, values.get? r.key = some r.value.toJson ∧
      provenance.get? r.key = some (.strings r.tags)
  events : ∃ (start stop complete : Event) (reports : List Event),
    es = start :: reports ++ [stop, complete] ∧ start.name = "trace.start" ∧
    stop.name = "trace.end" ∧ List.Forall₂ Row.ReportedBy rows reports ∧
    complete.name = "derived.evaluation_complete" ∧
    complete.attribute? "metrics" = some (.strings sorted)

theorem tree_eq (e : Evaluation) :
    e.tree = .object
      [("provenance", .object (Json.Members.ofList e.provenanceMembers)), ("type", .string e.type),
        ("values", .object (Json.Members.ofList (e.values.entries.map fun (key, value) =>
          (key, value.toJson))))] := by
  simp only [tree, Json.ofMembers, Json.Members.ofList, List.foldl_cons, List.foldl_nil,
    Json.Members.insert, String.reduceLT, String.reduceEq, if_true, if_false]

end Evaluation

namespace Evaluator

open Evaluation

variable {ev : Evaluator} {item : Json} {id type : String} {d : TypeDefinition}
  {t : List (Metric × Computed)} {s : Metric × Computed} {keys : List String} {e : Evaluation}
  {log : Log} {es : List Event}

/-- The row of a metric with what was computed for it. -/
def rowOf (s : Metric × Computed) : Row :=
  ⟨s.1.key.text, s.2.1, s.2.2.map Source.tag⟩

theorem map_key_map_rowOf : (t.map rowOf).map Row.key = t.map (·.1.key.text) := by
  rw [List.map_map]
  rfl

theorem value?_rowOf (h : (t.map (·.1.key.text)).Nodup) (hs : s ∈ t) :
    (⟨type, valuesOf t, provenanceOf t⟩ : Evaluation).value? (rowOf s).key =
      some (rowOf s).value :=
  (get?_valuesOf h).mpr ⟨s.1, s.2, hs, rfl, rfl⟩

theorem tags_rowOf (h : (t.map (·.1.key.text)).Nodup) (hs : s ∈ t) :
    (⟨type, valuesOf t, provenanceOf t⟩ : Evaluation).tags (rowOf s).key = (rowOf s).tags := by
  have hnodup : ((provenanceOf t).map Prod.fst).Nodup := by
    rw [provenanceOf, List.map_map]
    exact h
  have hmem : (s.1.key.text, s.2.2) ∈ provenanceOf t := List.mem_map.mpr ⟨s, hs, rfl⟩
  have hsources := (lookup_eq_some_iff_mem hnodup).mpr hmem
  simp only [rowOf, tags, sources?, hsources, Option.getD_some]

theorem valueMembers_rowOf (h : (t.map (·.1.key.text)).Nodup) :
    ((valuesOf t).entries.map fun (key, value) => (key, value.toJson)) =
      (t.map rowOf).map fun r => (r.key, r.value.toJson) := by
  rw [entries_valuesOf h, List.map_map, List.map_map]
  rfl

theorem provenanceMembers_rowOf :
    (⟨type, valuesOf t, provenanceOf t⟩ : Evaluation).provenanceMembers =
      (t.map rowOf).map fun r => (r.key, .strings r.tags) := by
  simp only [provenanceMembers, provenanceOf, List.map_map]
  rfl

theorem reportedBy_metricEvent (s : Metric × Computed) :
    (rowOf s).ReportedBy (metricEvent id type item s) :=
  ⟨rfl, rfl, rfl, rfl⟩

theorem tree_rowOf (h : (t.map (·.1.key.text)).Nodup) (hperm : keys.Perm (t.map (·.1.key.text)))
    (hsorted : keys.Pairwise (· < ·)) :
    ∃ values provenance : Json.Members,
      (⟨type, valuesOf t, provenanceOf t⟩ : Evaluation).tree = .object
        [("provenance", .object provenance), ("type", .string type), ("values", .object values)] ∧
      values.map Prod.fst = keys ∧ provenance.map Prod.fst = keys ∧
      ∀ r ∈ t.map rowOf, values.get? r.key = some r.value.toJson ∧
        provenance.get? r.key = some (.strings r.tags) := by
  have hvalueKeys : ((t.map rowOf).map fun r => (r.key, r.value.toJson)).map Prod.fst =
      t.map (·.1.key.text) := by
    rw [List.map_map]
    exact map_key_map_rowOf
  have hsourceKeys : ((t.map rowOf).map fun r => (r.key, Json.strings r.tags)).map Prod.fst =
      t.map (·.1.key.text) := by
    rw [List.map_map]
    exact map_key_map_rowOf
  rw [← hvalueKeys] at h
  refine ⟨_, _, tree_eq _, ?_⟩
  rw [valueMembers_rowOf (hvalueKeys ▸ h), provenanceMembers_rowOf]
  have h' := hsourceKeys ▸ hvalueKeys ▸ h
  refine ⟨(Json.Members.keys_ofList_eq_iff h).mpr ⟨hvalueKeys ▸ hperm, hsorted⟩,
    (Json.Members.keys_ofList_eq_iff h').mpr ⟨hsourceKeys ▸ hperm, hsorted⟩, fun r hr => ?_⟩
  rw [Json.Members.get?_ofList h, Json.Members.get?_ofList h']
  exact ⟨(lookup_eq_some_iff_mem h).mpr (List.mem_map_of_mem hr),
    (lookup_eq_some_iff_mem h').mpr (List.mem_map_of_mem hr)⟩

theorem Account.exists_shows (h : Account ev item (.ok e) es) :
    ∃ d rows sorted, ev.definitions.find? e.type = some d ∧
      rows.map Row.key = d.metrics.map (·.key.text) ∧ e.Shows es rows sorted := by
  cases h with
  | @evaluated id type d t keys duration hd hms ht hperm hsorted =>
    have hnodup := nodup_of_map_fst hms
    have hkeys : (t.map rowOf).map Row.key = d.metrics.map (·.key.text) :=
      map_key_map_rowOf.trans (map_key_of_map_fst hms)
    rw [← map_key_of_map_fst hms] at hperm
    refine ⟨d, t.map rowOf, keys, (definitionOf_eq_ok_iff.mp hd).2.2, hkeys, ?_⟩
    refine
      { nodup := map_key_map_rowOf ▸ hnodup
        perm := map_key_map_rowOf ▸ hperm
        increasing := hsorted
        value? := ?_
        tags := ?_
        serialised := ?_
        tree := tree_rowOf hnodup hperm hsorted
        events := ?_ }
    · intro r hr
      obtain ⟨s, hs, rfl⟩ := List.mem_map.mp hr
      exact value?_rowOf hnodup hs
    · intro r hr
      obtain ⟨s, hs, rfl⟩ := List.mem_map.mp hr
      exact tags_rowOf hnodup hs
    · rw [toJson, Values.toJson, valueMembers_rowOf hnodup, provenanceMembers_rowOf]
    · refine ⟨_, _, _, t.map (metricEvent id type item), rfl, rfl, rfl, ?_, rfl, rfl⟩
      rw [List.forall₂_map_left_iff, List.forall₂_map_right_iff, List.forall₂_same]
      exact fun s _ => reportedBy_metricEvent s

/-- **All that shows an evaluation agrees.** For an item that is evaluated there is one row for each
declared metric, in the order of declaration. The accessors, the serialised result, the tree and the
events that the evaluation adds to the log all show these rows. -/
theorem evaluate_shows (he : ((ev.evaluate item).on log).1 = .ok e) :
    ∃ d rows es sorted, ev.definitions.find? e.type = some d ∧
      rows.map Row.key = d.metrics.map (·.key.text) ∧
      log.Grows es ((ev.evaluate item).on log).2 ∧ e.Shows es rows sorted := by
  obtain ⟨r, es, log', hrun, haccount, hgrows⟩ := exists_account ev item log
  rw [hrun] at he ⊢
  cases he
  obtain ⟨d, rows, sorted, hd, hkeys, hshows⟩ := haccount.exists_shows
  exact ⟨d, rows, es, sorted, hd, hkeys, hgrows, hshows⟩

open Sample

theorem evaluate_shows_sample :
    ∃ e rows es sorted, (((evaluator definition).evaluate (task "x" ["a"])).on .recording).1 = .ok e ∧
      rows.map Row.key = ["total", "tagged", "share"] ∧ e.Shows es rows sorted ∧
      (((evaluator definition).evaluate (task "x" ["a"])).on .recording).2.events.toList = es := by
  obtain ⟨e, he, -⟩ := evaluate_definition
  rw [fst_on_evaluate, ← fst_on_evaluate _ _ .recording] at he
  obtain ⟨d, rows, es, sorted, hd, hkeys, hgrows, hshows⟩ := evaluate_shows he
  have htype := hasType_of_outcome ((fst_on_evaluate _ _ _).symm.trans he)
  rw [htype.unique (hasType_task "x" ["a"])] at hd
  cases (find?_definitions_evaluator rfl).symm.trans hd
  exact ⟨e, rows, es, sorted, he, hkeys, hshows, hgrows.events⟩

end Evaluator
end ItemMetrics
