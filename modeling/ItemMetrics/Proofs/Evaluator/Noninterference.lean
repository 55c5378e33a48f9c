import ItemMetrics.Proofs.Evaluator.Outcome
import ItemMetrics.Proofs.Metric.Reading

/-! # Nothing but the recorded sources has a part in a result

Two runs are compared. An operation that succeeds gives the same again wherever its recorded sources
look the same. Hence items of one type that agree at the paths of its metrics have the same outcome,
whatever else they hold (`Evaluator.evaluate_noninterference`). -/

namespace ItemMetrics

/-- What an operation records determines what it gives. -/
theorem Operation.apply_eq_of_recorded {op : Operation} {m : Metric} {item item' : Json}
    {computed computed' : Values} {c : Computed} (h : op.apply m item computed = .ok c)
    (hc : ∀ s ∈ c.2, s.SameAt item item' computed computed') :
    op.apply m item' computed' = .ok c := by
  rw [sources_of_apply h] at hc
  rw [← apply_congr hc, h]

namespace Evaluator

variable {ev : Evaluator} {item item' : Json} {type : String} {ms : List Metric} {p : Progress}

theorem definitionOf_congr (h : item.get? "item_type" = item'.get? "item_type") :
    ev.definitionOf item = ev.definitionOf item' := by
  rw [definitionOf, definitionOf, itemType, itemType, h]

/-- The two runs stay together, metric by metric. -/
theorem run_congr
    (h : ∀ m ∈ ms, ∀ path, m.config.get? "path" = some (.string path) →
      FieldPath.resolve item path = FieldPath.resolve item' path) :
    ms.foldlM (advance item) p = ms.foldlM (advance item') p := by
  induction ms generalizing p with
  | nil => rfl
  | cons m ms ih =>
    have hm : m.compute item p.values = m.compute item' p.values :=
      Metric.compute_congr (h m List.mem_cons_self) fun _ _ => rfl
    have hstep : advance item p m = advance item' p m := by rw [advance, advance, hm]
    rw [List.foldlM_cons, List.foldlM_cons, hstep]
    exact congrArg _ (funext fun p => ih fun m' hm' => h m' (List.mem_cons_of_mem _ hm'))

/-- **Provenance is complete.** -/
theorem evaluate_noninterference :
    (∀ (op : Operation) (m : Metric) (item item' : Json) (computed computed' : Values)
        (value : Scalar) (sources : List Source),
      op.apply m item computed = .ok (value, sources) →
      (∀ path, .path path ∈ sources →
        FieldPath.resolve item path = FieldPath.resolve item' path) →
      (∀ key, .metric key ∈ sources → computed.get? key = computed'.get? key) →
      op.apply m item' computed' = .ok (value, sources)) ∧
    ∀ (ev : Evaluator) (type : String) (item item' : Json),
      HasType item type → HasType item' type →
      (∀ d, ev.definitions.find? type = some d → ∀ m ∈ d.metrics, ∀ path,
        m.config.get? "path" = some (.string path) →
        FieldPath.resolve item path = FieldPath.resolve item' path) →
      ∀ log log', ((ev.evaluate item).on log).1 = ((ev.evaluate item').on log').1 := by
  constructor
  · intro op m item item' computed computed' value sources h hpath hmetric
    refine Operation.apply_eq_of_recorded h fun s hs => ?_
    cases s with
    | path path => exact hpath path hs
    | metric key => exact hmetric key hs
  · intro ev type item item' hitem hitem' h log log'
    have hdefinition : ev.definitionOf item = ev.definitionOf item' :=
      definitionOf_congr (hitem.1.trans hitem'.1.symm)
    rw [fst_on_evaluate, fst_on_evaluate]
    cases hd : ev.definitionOf item' with
    | error err =>
      rw [outcome_of_definitionOf_error (hdefinition.trans hd), outcome_of_definitionOf_error hd]
    | ok found =>
      obtain ⟨type', d⟩ := found
      obtain ⟨htype, -, hfind⟩ := definitionOf_eq_ok_iff.mp hd
      rw [outcome_of_definitionOf (hdefinition.trans hd), outcome_of_definitionOf hd,
        run_congr (h d (hitem'.unique htype ▸ hfind))]

open Sample

theorem evaluate_noninterference_sample :
    Operation.length.apply total (task "y" ["a"]) (.ofList [("share", .float 1)]) =
      .ok (.integer 1, [.path "tags"]) ∧
    (((evaluator definition).evaluate (task "x" ["a"])).on .disabled).1 =
      (((evaluator definition).evaluate (task "y" ["a"])).on .recording).1 := by
  refine ⟨evaluate_noninterference.1 .length total (task "x" ["a"]) _ ∅ _ _ _ (by decide +kernel) ?_ ?_,
    evaluate_noninterference.2 (evaluator definition) "task" _ _ (hasType_task _ _)
      (hasType_task _ _) ?_ _ _⟩
  · intro path h
    cases List.mem_singleton.mp h
    exact (resolve_task "x" ["a"]).trans (resolve_task "y" ["a"]).symm
  · intro key h
    cases List.mem_singleton.mp h
  · intro d hd m hm path hpath
    cases (find?_definitions_evaluator rfl).symm.trans hd
    have htags : path = "tags" := by
      rcases mem_metrics_definition hm with rfl | rfl | rfl <;> cases hpath <;> rfl
    rw [htags, resolve_task, resolve_task]

end Evaluator
end ItemMetrics
