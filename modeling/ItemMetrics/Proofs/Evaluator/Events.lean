import ItemMetrics.Proofs.Evaluator.Outcome
import ItemMetrics.Proofs.Trace.Growth

/-! # The events of an evaluation

What an item comes to is tied to what it adds to the log: nothing, if it has no definition; else a
span with one event for each metric that is computed, and after it one more event if all of them
are (`Evaluator.Account`). Several items add their events one after another up to the first that
fails (`Evaluator.evaluateMany_accounts`). -/

namespace ItemMetrics.Evaluator

/-- The span in which an item is evaluated. -/
def itemSpan (id type : String) (item : Json) : Span :=
  ⟨id, "derived.evaluate_item", [("item_id", itemId item), ("type_key", .string type)]⟩

/-- The event of a metric that has been computed. -/
def metricEvent (id type : String) (item : Json) (s : Metric × Computed) : Event :=
  ⟨"derived.metric",
    [("item_id", itemId item), ("metric", .string s.1.key.text),
      ("sources", .strings (s.2.2.map Source.tag)), ("span_id", .string id),
      ("type_key", .string type), ("value", s.2.1.toJson)]⟩

/-- The event of an item all of whose metrics have been computed. -/
def completeEvent (type : String) (item : Json) (keys : List String) : Event :=
  ⟨"derived.evaluation_complete",
    [("item_id", itemId item), ("metrics", .strings keys), ("type_key", .string type)]⟩

/-- What an item comes to, with the events that it adds to the log. -/
inductive Account (ev : Evaluator) (item : Json) :
    Except EvaluationError Evaluation → List Event → Prop
  | undefined {err : EvaluationError} : ev.Undefined item err → Account ev item (.error err) []
  /-- The metrics on the trail are computed and the next one fails. -/
  | failed {id type : String} {d : TypeDefinition} {t : List (Metric × Computed)} {m : Metric}
      {after : List Metric} {err : EvaluationError} {duration : Json} :
      ev.definitionOf item = .ok (type, d) → d.metrics = t.map Prod.fst ++ m :: after →
      Trail item t → m.compute item (valuesOf t) = .error err →
      Account ev item (.error err)
        ((itemSpan id type item).startEvent :: t.map (metricEvent id type item) ++
          [(itemSpan id type item).endEvent duration])
  | evaluated {id type : String} {d : TypeDefinition} {t : List (Metric × Computed)}
      {keys : List String} {duration : Json} :
      ev.definitionOf item = .ok (type, d) → t.map Prod.fst = d.metrics → Trail item t →
      keys.Perm (d.metrics.map (·.key.text)) → keys.Pairwise (· < ·) →
      Account ev item (.ok ⟨type, valuesOf t, provenanceOf t⟩)
        ((itemSpan id type item).startEvent :: t.map (metricEvent id type item) ++
          [(itemSpan id type item).endEvent duration, completeEvent type item keys])

/-- What items come to one after another, with all the events that they add to the log. The first
failure is the last that is seen of them. -/
inductive Accounts (ev : Evaluator) :
    List Json → Except EvaluationError (List (Json × Evaluation)) → List Event → Prop
  | nil : Accounts ev [] (.ok []) []
  | stop {item : Json} {items : List Json} {err : EvaluationError} {es : List Event} :
      Account ev item (.error err) es → Accounts ev (item :: items) (.error err) es
  | next {item : Json} {items : List Json} {e : Evaluation} {es es' : List Event}
      {r : Except EvaluationError (List (Json × Evaluation))} :
      Account ev item (.ok e) es → Accounts ev items r es' →
      Accounts ev (item :: items) (r.map ((item, e) :: ·)) (es ++ es')

variable {ev : Evaluator} {item : Json} {type : String} {span : Span} {log : Log} {d : TypeDefinition}
  {t : List (Metric × Computed)} {m : Metric} {c : Computed} {ms rest : List Metric}
  {p : Progress} {err : EvaluationError}

/-! ## The metrics of an item -/

theorem metricEvent_eq (id type : String) (item : Json) (s : Metric × Computed) :
    metricEvent id type item s = .of "derived.metric"
      [("span_id", .string id), ("type_key", .string type), ("item_id", itemId item),
        ("metric", .string s.1.key.text), ("value", s.2.1.toJson),
        ("sources", Source.tagsToJson s.2.2)] := by
  simp only [metricEvent, Source.tagsToJson, Event.of, Json.Members.ofList, List.foldl_cons, List.foldl_nil,
    Json.Members.insert, String.reduceLT, String.reduceEq, if_true, if_false]

theorem completeEvent_eq (type : String) (item : Json) (keys : List String) :
    completeEvent type item keys = .of "derived.evaluation_complete"
      [("type_key", .string type), ("item_id", itemId item), ("metrics", .strings keys)] := by
  simp only [completeEvent, Event.of, Json.Members.ofList, List.foldl_cons, List.foldl_nil,
    Json.Members.insert, String.reduceLT, String.reduceEq, if_true, if_false]

theorem on_computeNext_of_ok (hc : m.compute item (valuesOf t) = .ok c) :
    (computeNext type item span ⟨valuesOf t, provenanceOf t⟩ m).on log =
      (.ok ⟨valuesOf (t ++ [(m, c)]), provenanceOf (t ++ [(m, c)])⟩,
        log.add (metricEvent span.id type item (m, c))) := by
  simp only [computeNext, Logged.on_bind, Logged.on_ofExcept, hc, Logged.on_emit, Logged.on_pure,
    valuesOf_append_singleton, provenanceOf, List.map_append, List.map_singleton, Log.emit,
    metricEvent_eq]

theorem on_computeNext_of_error (hc : m.compute item p.values = .error err) :
    (computeNext type item span p m).on log = (.error err, log) := by
  simp only [computeNext, Logged.on_bind, Logged.on_ofExcept, hc]

/-- A run gets past every metric on a trail and adds its event. -/
theorem exists_on_run (type : String) (span : Span) (rest : List Metric) (log : Log)
    (h : Trail item t) :
    ∃ log', log.Grows (t.map (metricEvent span.id type item)) log' ∧
      ((t.map Prod.fst ++ rest).foldlM (computeNext type item span) ⟨∅, []⟩).on log =
        (rest.foldlM (computeNext type item span) ⟨valuesOf t, provenanceOf t⟩).on log' := by
  -- from the right, as trails grow; what is left of the run takes the metric that is cut off
  induction t using List.reverseRecOn generalizing rest with
  | nil => exact ⟨log, .refl log, rfl⟩
  | append_singleton t s ih =>
    obtain ⟨m, c⟩ := s
    obtain ⟨ht, hc⟩ := trail_append_singleton_iff.mp h
    obtain ⟨log₁, hgrows, hrun⟩ := ih (m :: rest) ht
    refine ⟨log₁.add (metricEvent span.id type item (m, c)), ?_, ?_⟩
    · rw [List.map_append]
      exact hgrows.trans (Log.grows_add log₁ _)
    · rw [List.map_append, List.append_assoc]
      refine hrun.trans ?_
      rw [List.foldlM_cons, Logged.on_bind, on_computeNext_of_ok hc]

/-! ## The span of an item -/

theorem openSpan_item (type : String) (item : Json) (log : Log) :
    ∃ id opened, log.openSpan "derived.evaluate_item"
      (Json.Members.ofList [("type_key", .string type), ("item_id", itemId item)]) =
        (itemSpan id type item, opened) := by
  refine ⟨s!"{log.process}-{log.opened + 1}", (log.openSpan "derived.evaluate_item"
    (Json.Members.ofList [("type_key", .string type), ("item_id", itemId item)])).2, ?_⟩
  simp only [Log.openSpan, itemSpan, Json.Members.ofList, List.foldl_cons, List.foldl_nil,
    Json.Members.insert, String.reduceLT, String.reduceEq, if_true, if_false]

/-- Around what a run adds inside the span of an item stand the start and the end of the span. -/
theorem exists_on_itemSpan {r : Except EvaluationError Progress} {es : String → List Event}
    (hrun : ∀ id opened, ∃ log', opened.Grows (es id) log' ∧
      (ms.foldlM (computeNext type item (itemSpan id type item)) ⟨∅, []⟩).on opened = (r, log'))
    (log : Log) :
    ∃ id log', log.Grows ((itemSpan id type item).startEvent :: es id ++
        [(itemSpan id type item).endEvent (.ofNat 0)]) log' ∧
      (Logged.inSpan "derived.evaluate_item" [("type_key", .string type), ("item_id", itemId item)]
        fun span => ms.foldlM (computeNext type item span) ⟨∅, []⟩).on log = (r, log') := by
  obtain ⟨id, opened, hopen⟩ := openSpan_item type item log
  obtain ⟨log₁, hgrows, hbody⟩ := hrun id opened
  exact ⟨id, Logged.exists_on_inSpan hopen hgrows hbody⟩

/-- The keys of a definition in increasing order. -/
theorem exists_sorted_keys (ht : t.map Prod.fst = d.metrics) :
    ∃ keys, ((valuesOf t).keys.mergeSort fun a b => decide (a ≤ b)) = keys ∧
      keys.Perm (d.metrics.map (·.key.text)) ∧ keys.Pairwise (· < ·) := by
  rw [keys_valuesOf_of_nodup (nodup_of_map_fst ht), map_key_of_map_fst ht]
  have hperm := List.mergeSort_perm (d.metrics.map (·.key.text)) fun a b => decide (a ≤ b)
  have hne := hperm.nodup_iff.mpr d.nodup_keys
  exact ⟨_, rfl, hperm, ((pairwise_mergeSort_le _).and hne).imp fun h =>
    Std.lt_of_le_of_ne h.1 h.2⟩

/-! ## An item -/

theorem exists_account_of_failure {after : List Metric} (hd : ev.definitionOf item = .ok (type, d))
    (hms : d.metrics = t.map Prod.fst ++ m :: after) (ht : Trail item t)
    (herr : m.compute item (valuesOf t) = .error err) (log : Log) :
    ∃ r es log', (ev.evaluate item).on log = (r, log') ∧ Account ev item r es ∧
      log.Grows es log' := by
  have hbody : ∀ id opened, ∃ log', opened.Grows (t.map (metricEvent id type item)) log' ∧
      (d.metrics.foldlM (computeNext type item (itemSpan id type item)) ⟨∅, []⟩).on opened =
        (.error err, log') := by
    intro id opened
    obtain ⟨log', hgrows, hrun⟩ :=
      exists_on_run type (itemSpan id type item) (m :: after) opened ht
    refine ⟨log', hgrows, ?_⟩
    rw [hms, hrun, List.foldlM_cons, Logged.on_bind, on_computeNext_of_error herr]
  obtain ⟨id, log', hgrows, hspan⟩ := exists_on_itemSpan hbody log
  refine ⟨.error err, _, log', ?_, .failed hd hms ht herr, hgrows⟩
  simp only [evaluate, Logged.on_bind, Logged.on_ofExcept, hd, hspan]

theorem exists_account_of_trail (hd : ev.definitionOf item = .ok (type, d))
    (hms : t.map Prod.fst = d.metrics) (ht : Trail item t) (log : Log) :
    ∃ r es log', (ev.evaluate item).on log = (r, log') ∧ Account ev item r es ∧
      log.Grows es log' := by
  have hbody : ∀ id opened, ∃ log', opened.Grows (t.map (metricEvent id type item)) log' ∧
      (d.metrics.foldlM (computeNext type item (itemSpan id type item)) ⟨∅, []⟩).on opened =
        (.ok ⟨valuesOf t, provenanceOf t⟩, log') := by
    intro id opened
    obtain ⟨log', hgrows, hrun⟩ := exists_on_run type (itemSpan id type item) [] opened ht
    refine ⟨log', hgrows, ?_⟩
    rw [← hms, ← List.append_nil (t.map Prod.fst), hrun, List.foldlM_nil, Logged.on_pure]
  obtain ⟨id, log₁, hgrows, hspan⟩ := exists_on_itemSpan hbody log
  obtain ⟨keys, hkeys, hperm, hsorted⟩ := exists_sorted_keys hms
  have hall := hgrows.trans (log₁.grows_add (completeEvent type item keys))
  rw [List.append_assoc] at hall
  refine ⟨.ok ⟨type, valuesOf t, provenanceOf t⟩, _, log₁.add (completeEvent type item keys), ?_,
    .evaluated hd hms ht hperm hsorted, hall⟩
  simp only [evaluate, Logged.on_bind, Logged.on_ofExcept, hd, hspan, hkeys, Logged.on_emit,
    Logged.on_pure, completeEvent_eq, Log.emit]

theorem exists_account (ev : Evaluator) (item : Json) (log : Log) :
    ∃ r es log', (ev.evaluate item).on log = (r, log') ∧ Account ev item r es ∧
      log.Grows es log' := by
  cases hout : ev.outcome item with
  | ok e =>
    obtain ⟨d, t, hd, hms, ht, -⟩ := outcome_eq_ok_iff.mp hout
    exact exists_account_of_trail hd hms ht log
  | error err =>
    obtain hundefined | ⟨type, d, t, m, after, hd, hms, ht, herr⟩ := outcome_eq_error_iff.mp hout
    · refine ⟨.error err, [], log, ?_, .undefined hundefined, .refl log⟩
      simp only [evaluate, Logged.on_bind, Logged.on_ofExcept,
        definitionOf_eq_error_iff.mpr hundefined]
    · exact exists_account_of_failure hd hms ht herr log

/-! ## Several items -/

/-- One item after another is accounted for, up to the first that fails. -/
theorem exists_accounts (ev : Evaluator) (items : List Json) (log : Log) :
    ∃ r es log', (ev.evaluateMany items).on log = (r, log') ∧ Accounts ev items r es ∧
      log.Grows es log' := by
  induction items generalizing log with
  | nil => exact ⟨.ok [], [], log, rfl, .nil, .refl log⟩
  | cons item items ih =>
    obtain ⟨r, es, log₁, hrun, haccount, hgrows⟩ := exists_account ev item log
    cases r with
    | error err =>
      refine ⟨.error err, es, log₁, ?_, .stop haccount, hgrows⟩
      simp only [evaluateMany, List.mapM_cons, Logged.on_bind, hrun]
    | ok e =>
      obtain ⟨r', es', log₂, hrest, haccounts, hgrows'⟩ := ih log₁
      refine ⟨_, es ++ es', log₂, ?_, .next haccount haccounts, hgrows.trans hgrows'⟩
      rw [evaluateMany] at hrest
      simp only [evaluateMany, List.mapM_cons, Logged.on_bind, hrun, hrest, Logged.on_pure]
      cases r' <;> rfl

/-- What comes of several items is the same on every log. -/
theorem fst_on_evaluateMany (ev : Evaluator) (items : List Json) (log : Log) :
    ((ev.evaluateMany items).on log).1 =
      items.mapM fun item => (ev.outcome item).map ((item, ·)) := by
  induction items generalizing log with
  | nil => rfl
  | cons item items ih =>
    simp only [evaluateMany] at ih
    simp only [evaluateMany, List.mapM_cons, Logged.fst_on_bind, fst_on_evaluate, Logged.on_pure, ih]
    cases ev.outcome item <;> rfl

open Sample

end ItemMetrics.Evaluator
