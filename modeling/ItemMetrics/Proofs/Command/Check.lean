import ItemMetrics.Command.Evaluate
import ItemMetrics.Proofs.Evaluator.Events
import ItemMetrics.Proofs.Metric.Failure
import ItemMetrics.Proofs.Report.Console

/-! # The check of the items before they are evaluated

The check passes the items that have the required fields and a registered type, and names what is
wrong with each of the others (`Command.problem?_eq_none_iff`, `Command.forall₂_checkItems`). The
type of an item that has passed is settled: neither the evaluator nor the report can fail for it
(`Command.checkItems_settles_types`). -/

namespace ItemMetrics

namespace Evaluator

variable {ev : Evaluator} {item : Json} {type : String} {err : EvaluationError}

/-- An item of a registered type does not fail for its type. -/
theorem ne_of_outcome_eq_error (htype : HasType item type) (hregistered : type ∈ ev.registry.types)
    (h : ev.outcome item = .error err) :
    err ≠ .missingItemType ∧ ∀ type', err ≠ .unknownType type' := by
  obtain hundefined | ⟨_, _, _, m, _, -, -, -, hm⟩ := outcome_eq_error_iff.mp h
  · cases hundefined with
    | missingItemType hnone => exact absurd htype (hnone type)
    | unknownType htype' hunknown =>
      rw [← htype.unique htype', Registry.contains_eq_true_iff.mpr hregistered] at hunknown
      cases hunknown
    | noDefinition => simp
  · obtain hdeclaration | ⟨source, rfl⟩ := Metric.failure_of_compute hm
    · cases hdeclaration <;> simp
    · simp

theorem mem_types_of_outcome {e : Evaluation} (h : ev.outcome item = .ok e) :
    e.type ∈ ev.registry.types := by
  obtain ⟨d, _, hd, -⟩ := outcome_eq_ok_iff.mp h
  exact Registry.contains_eq_true_iff.mp (definitionOf_eq_ok_iff.mp hd).2.1

end Evaluator

theorem Registry.ne_empty_of_mem_types {r : Registry} {type : String} (h : type ∈ r.types) :
    type ≠ "" := by
  obtain ⟨m, -, rfl⟩ := mem_types_iff.mp h
  exact m.type.nonempty

namespace Command

/-- An item is complete when it is an object with all required fields. -/
structure Complete (requiredFields : List String) (payload : Json) : Prop where
  isObject : payload.isObject = true
  fields : ∀ field ∈ requiredFields, ∃ value, payload.get? field = some value

/-- An item is acceptable when it is complete and its type is registered. -/
structure Acceptable (requiredFields : List String) (registry : Registry) (payload : Json) :
    Prop extends Complete requiredFields payload where
  type : ∃ type ∈ registry.types, payload.get? "item_type" = some (.string type)

/-- Why an item is not acceptable. What is asked first counts: that it is an object, that it has the
required fields, and its type. -/
inductive Problem (requiredFields : List String) (registry : Registry) (payload : Json) :
    String → Prop
  | notMapping : payload.isObject = false →
    Problem requiredFields registry payload "item must be a mapping"
  | missingFields {missing : List String} : payload.isObject = true → missing ≠ [] →
    missing.Perm (requiredFields.filter fun field => (payload.get? field).isNone) →
    missing.Pairwise (· ≤ ·) →
    Problem requiredFields registry payload ("missing fields " ++ ", ".intercalate missing)
  | missingType : Complete requiredFields payload → payload.get? "item_type" = none →
    Problem requiredFields registry payload "missing fields item_type"
  | unknownType {type : String} : Complete requiredFields payload →
    payload.get? "item_type" = some (.string type) → type ∉ registry.types →
    Problem requiredFields registry payload s!"unknown item_type '{type}'"
  /-- A value that is no text is no type; it is shown as JSON. -/
  | badType {value : Json} : Complete requiredFields payload →
    payload.get? "item_type" = some value → (∀ type, value ≠ .string type) →
    Problem requiredFields registry payload s!"unknown item_type '{value.compact}'"

variable {requiredFields : List String} {registry : Registry} {payload : Json} {text : String}
  {items : List LoadedItem} {ev : Evaluator}

/-! ## One item -/

theorem filter_isNone_eq_nil_iff :
    (requiredFields.filter fun field => (payload.get? field).isNone) = [] ↔
      ∀ field ∈ requiredFields, ∃ value, payload.get? field = some value := by
  simp [List.filter_eq_nil_iff, Option.ne_none_iff_exists']

theorem Problem.not_acceptable (h : Problem requiredFields registry payload text) :
    ¬ Acceptable requiredFields registry payload := by
  rintro ⟨⟨hobject, hfields⟩, type, hmem, htype⟩
  cases h with
  | notMapping h => cases hobject.symm.trans h
  | missingFields _ hne hperm =>
    rw [filter_isNone_eq_nil_iff.mpr hfields] at hperm
    exact hne hperm.eq_nil
  | missingType _ h => cases htype.symm.trans h
  | unknownType _ h hunknown =>
    cases htype.symm.trans h
    exact hunknown hmem
  | badType _ h hno => exact hno type (Option.some.inj (h.symm.trans htype))

/-- An item is acceptable and nothing is said about it, or it is not and the problem is named. -/
theorem problem?_cases (requiredFields : List String) (registry : Registry) (payload : Json) :
    problem? requiredFields registry payload = none ∧ Acceptable requiredFields registry payload ∨
      ∃ text, problem? requiredFields registry payload = some text ∧
        Problem requiredFields registry payload text := by
  unfold problem?
  cases hobject : payload.isObject with
  | false => exact .inr ⟨_, rfl, .notMapping hobject⟩
  | true =>
    rw [if_neg (by simp)]
    cases hmissing : requiredFields.filter fun field => (payload.get? field).isNone with
    | cons field rest =>
      refine .inr ⟨_, rfl, .missingFields hobject ?_ ?_ (pairwise_mergeSort_le _)⟩
      · exact fun hnil => absurd (List.mergeSort_perm _ _).symm (by rw [hnil]; simp)
      · rw [hmissing]
        exact List.mergeSort_perm _ _
    | nil =>
      have hcomplete : Complete requiredFields payload :=
        ⟨hobject, filter_isNone_eq_nil_iff.mp hmissing⟩
      dsimp only
      split
      · next htype => exact .inr ⟨_, rfl, .missingType hcomplete htype⟩
      · next type htype =>
        cases hcontains : registry.contains type with
        | true =>
          have hmem := Registry.contains_eq_true_iff.mp hcontains
          exact .inl ⟨rfl, hcomplete, type, hmem, htype⟩
        | false =>
          have hmem := mt Registry.contains_eq_true_iff.mpr (Bool.eq_false_iff.mp hcontains)
          exact .inr ⟨_, rfl, .unknownType hcomplete htype hmem⟩
      · next value hstring hvalue =>
        exact .inr ⟨_, rfl, .badType hcomplete hvalue hstring⟩

/-- The check has nothing to say about an item exactly when the item is acceptable. -/
theorem problem?_eq_none_iff :
    problem? requiredFields registry payload = none ↔
      Acceptable requiredFields registry payload := by
  obtain ⟨hnone, h⟩ | ⟨text, hsome, h⟩ := problem?_cases requiredFields registry payload
  · exact iff_of_true hnone h
  · exact iff_of_false (by simp [hsome]) h.not_acceptable

theorem problem_of_problem? (h : problem? requiredFields registry payload = some text) :
    Problem requiredFields registry payload text := by
  obtain ⟨hnone, -⟩ | ⟨text', hsome, hproblem⟩ := problem?_cases requiredFields registry payload
  · cases hnone.symm.trans h
  · cases hsome.symm.trans h
    exact hproblem

instance : Decidable (Acceptable requiredFields registry payload) :=
  decidable_of_iff _ problem?_eq_none_iff

/-! ## All items -/

/-- What is reported of an item that is not acceptable: its name and the problem. -/
def Reported (requiredFields : List String) (registry : Registry) (item : LoadedItem)
    (text : String) : Prop :=
  ∃ reason, Problem requiredFields registry item.payload reason ∧
    text = item.name ++ ": " ++ reason

/-- Each item that is not acceptable is reported once, in the order of the items. -/
theorem forall₂_checkItems (requiredFields : List String) (registry : Registry)
    (items : List LoadedItem) :
    List.Forall₂ (Reported requiredFields registry)
      (items.filter fun item => ¬ Acceptable requiredFields registry item.payload)
      (checkItems requiredFields registry items) := by
  induction items with
  | nil => exact .nil
  | cons item items ih =>
    rw [checkItems, List.filterMap_cons]
    cases hproblem : problem? requiredFields registry item.payload with
    | none =>
      rw [List.filter_cons_of_neg (by simpa using problem?_eq_none_iff.mp hproblem)]
      exact ih
    | some text =>
      have h := problem_of_problem? hproblem
      rw [List.filter_cons_of_pos (by simpa using h.not_acceptable)]
      exact .cons ⟨text, h, rfl⟩ ih

/-- The check reports nothing exactly when all items are acceptable. -/
theorem checkItems_eq_nil_iff :
    checkItems requiredFields registry items = [] ↔
      ∀ item ∈ items, Acceptable requiredFields registry item.payload := by
  simp only [checkItems, List.filterMap_eq_nil_iff, Option.map_eq_none_iff, problem?_eq_none_iff]

/-! ## After the check -/

theorem Acceptable.exists_hasType (h : Acceptable requiredFields registry payload) :
    ∃ type ∈ registry.types, Evaluator.HasType payload type := by
  obtain ⟨type, hmem, htype⟩ := h.type
  exact ⟨type, hmem, htype, Registry.ne_empty_of_mem_types hmem⟩

/-- Acceptable items do not fail for their types. -/
theorem ne_of_evaluateMany_eq_error {err : EvaluationError} {log : Log}
    (hitems : ∀ item ∈ items, Acceptable requiredFields ev.registry item.payload)
    (h : ((ev.evaluateMany (items.map LoadedItem.payload)).on log).1 = .error err) :
    err ≠ .missingItemType ∧ ∀ type, err ≠ .unknownType type := by
  rw [Evaluator.fst_on_evaluateMany] at h
  obtain ⟨before, payload, after, _, hsplit, -, hpayload⟩ := Except.mapM_eq_error_iff.mp h
  have hmem : payload ∈ items.map LoadedItem.payload := by simp [hsplit]
  obtain ⟨item, hitem, rfl⟩ := List.mem_map.mp hmem
  obtain ⟨type, hregistered, htype⟩ := (hitems item hitem).exists_hasType
  exact Evaluator.ne_of_outcome_eq_error htype hregistered (Except.map_eq_error_iff.mp hpayload)

/-- Items that are evaluated are reported under their own types. -/
theorem forall₂_of_evaluateMany {results : List (Json × Evaluation)} {log : Log}
    (h : ((ev.evaluateMany (items.map LoadedItem.payload)).on log).1 = .ok results) :
    List.Forall₂ (fun item reported => item.payload.get? "item_type" = some (.string reported.type))
      items (results.map fun r => Report.Item.of r.1 r.2) := by
  rw [Evaluator.fst_on_evaluateMany, Except.mapM_eq_ok_iff_forall₂, List.forall₂_map_left_iff] at h
  rw [List.forall₂_map_right_iff]
  refine h.imp fun item r hr => ?_
  obtain ⟨e, he, rfl⟩ := Except.map_eq_ok_iff.mp hr
  exact (Evaluator.hasType_of_outcome he).1

/-- Whatever is evaluated can be reported. -/
theorem console_of_evaluateMany {payloads : List Json} {results : List (Json × Evaluation)}
    {log : Log} (h : ((ev.evaluateMany payloads).on log).1 = .ok results) (colors : Bool) :
    (Report.console colors ev.registry (results.map fun r => Report.Item.of r.1 r.2)).2 =
      .ok () := by
  rw [Evaluator.fst_on_evaluateMany] at h
  refine Report.console_eq_ok_iff.mpr fun reported hreported => ?_
  obtain ⟨r, hr, rfl⟩ := List.mem_map.mp hreported
  obtain ⟨payload, -, hpayload⟩ := (Except.mem_iff_of_mapM h).mp hr
  obtain ⟨e, he, rfl⟩ := Except.map_eq_ok_iff.mp hpayload
  exact Evaluator.mem_types_of_outcome he

/-- **The check settles the types of the items.** It passes when all items are acceptable, and
reports each of those that are not. After it has passed, no evaluation fails because an item has no
type or an unknown one, and the report of what was evaluated can be written: each item stands in it
under its own type, and each type is registered. -/
theorem checkItems_settles_types (ev : Evaluator) (requiredFields : List String)
    (items : List LoadedItem) :
    (checkItems requiredFields ev.registry items = [] ↔
      ∀ item ∈ items, Acceptable requiredFields ev.registry item.payload) ∧
    List.Forall₂ (Reported requiredFields ev.registry)
      (items.filter fun item => ¬ Acceptable requiredFields ev.registry item.payload)
      (checkItems requiredFields ev.registry items) ∧
    (checkItems requiredFields ev.registry items = [] → ∀ log,
      (∀ err, ((ev.evaluateMany (items.map LoadedItem.payload)).on log).1 = .error err →
        err ≠ .missingItemType ∧ ∀ type, err ≠ .unknownType type) ∧
      ∀ results, ((ev.evaluateMany (items.map LoadedItem.payload)).on log).1 = .ok results →
        (∀ colors, (Report.console colors ev.registry
          (results.map fun r => Report.Item.of r.1 r.2)).2 = .ok ()) ∧
        List.Forall₂
          (fun item reported => item.payload.get? "item_type" = some (.string reported.type))
          items (results.map fun r => Report.Item.of r.1 r.2)) := by
  refine ⟨checkItems_eq_nil_iff, forall₂_checkItems requiredFields ev.registry items, ?_⟩
  intro hcheck log
  have hitems := checkItems_eq_nil_iff.mp hcheck
  exact ⟨fun err herr => ne_of_evaluateMany_eq_error hitems herr, fun results hresults =>
    ⟨console_of_evaluateMany hresults, forall₂_of_evaluateMany hresults⟩⟩

open Sample

theorem checkItems_settles_types_sample :
    checkItems ["id"] (evaluator definition).registry
      [⟨"items/a.json", task "x" ["a"]⟩, ⟨"items/b.json", .null⟩] =
        ["b.json: item must be a mapping"] ∧
    Acceptable ["id"] (evaluator definition).registry (task "x" ["a"]) ∧
    ∃ r, (((evaluator definition).evaluateMany [task "x" ["a"]]).on .disabled).1 = .ok [r] ∧
      (Report.Item.of r.1 r.2).type = "task" ∧
      (Report.console false (evaluator definition).registry [.of r.1 r.2]).2 = .ok () := by
  have hpassed : checkItems ["id"] (evaluator definition).registry
      [⟨"items/a.json", task "x" ["a"]⟩] = [] := by
    decide +kernel
  have hevaluated : (((evaluator definition).evaluateMany [task "x" ["a"]]).on .disabled).1.map
      List.length = .ok 1 := by
    decide +kernel
  obtain ⟨results, hresults, hlength⟩ := Except.map_eq_ok_iff.mp hevaluated
  obtain ⟨r, rfl⟩ := List.length_eq_one_iff.mp hlength
  obtain ⟨hiff, -, hafter⟩ := checkItems_settles_types (evaluator definition) ["id"]
    [⟨"items/a.json", task "x" ["a"]⟩]
  obtain ⟨hconsole, htypes⟩ := (hafter hpassed .disabled).2 [r] hresults
  cases htypes with
  | cons htype _ =>
    have htask := (hasType_task "x" ["a"]).1.symm.trans htype
    exact ⟨by decide +kernel, hiff.mp hpassed _ (List.mem_singleton_self _), r, hresults,
      (Json.string.inj (Option.some.inj htask)).symm, hconsole false⟩

end Command
end ItemMetrics
