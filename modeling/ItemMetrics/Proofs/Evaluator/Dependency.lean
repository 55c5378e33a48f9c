import ItemMetrics.Proofs.Evaluator.Loading
import ItemMetrics.Proofs.Evaluator.Outcome
import ItemMetrics.Proofs.Metric.Failure

/-! # Dependencies that are not computed

Whether a dependency can be met shows in the order of declaration alone (`UnmetAt`). Once a run
comes to the first metric with one that cannot, it fails there (`Evaluator.evaluate_unmet_iff`); no
item gets past it, and where there is none no item fails for a dependency. -/

namespace ItemMetrics

/-- The keys declared before a position. -/
def keysBefore (ms : List Metric) (j : Nat) : List String :=
  (ms.take j).map (·.key.text)

/-- The metric `m` stands at position `j` and depends on something that is not declared before it;
the first such dependency is `l`. -/
structure UnmetAt (ms : List Metric) (j : Nat) (m : Metric) (l : Label) : Prop where
  metric : ms[j]? = some m
  unmet : m.FirstUnmet (keysBefore ms j) l

/-- No metric at a smaller position depends on something that is not declared before it. -/
structure FirstUnmetAt (ms : List Metric) (j : Nat) (m : Metric) (l : Label) : Prop
    extends UnmetAt ms j m l where
  least : ∀ i < j, ∀ m' l', ¬ UnmetAt ms i m' l'

/-- The file of a definition whose only metric depends on itself. -/
def Sample.circular : FileTree :=
  .addFile .empty "derived/task.yaml" <| .text <|
    "type: task\n" ++
    "metrics:\n" ++
    "- key: total\n" ++
    "  description: Tags\n" ++
    "  operation: length\n" ++
    "  depends_on: [total]\n"

namespace Evaluator

variable {ev : Evaluator} {item : Json} {type : String} {d : TypeDefinition} {e : Evaluation}
  {t : List (Metric × Computed)} {i j : Nat} {m : Metric} {l : Label}

/-- A trail through the first metrics sets their keys. -/
theorem keys_valuesOf (ht : t.map Prod.fst = d.metrics.take j) :
    (valuesOf t).keys = keysBefore d.metrics j := by
  have hkeys : t.map (·.1.key.text) = keysBefore d.metrics j := by
    rw [keysBefore, ← ht, List.map_map]
    rfl
  have hnodup : (t.map (·.1.key.text)).Nodup := by
    rw [hkeys]
    exact d.nodup_keys.sublist ((List.take_sublist j d.metrics).map _)
  rw [keys_valuesOf_of_nodup hnodup, hkeys]

/-- On a trail every dependency of a metric is declared before it. -/
theorem Trail.mem_keysBefore (h : Trail item t) (ht : t.map Prod.fst = d.metrics.take j)
    (hij : i < j) (hm : d.metrics[i]? = some m) (hl : l ∈ m.dependsOn) :
    l.text ∈ keysBefore d.metrics i := by
  have hi : (t.map Prod.fst)[i]? = some m := by rw [ht, List.getElem?_take_of_lt hij, hm]
  rw [List.getElem?_map, Option.map_eq_some_iff] at hi
  obtain ⟨⟨_, c⟩, hi, rfl⟩ := hi
  have hbefore : (t.take i).map Prod.fst = d.metrics.take i := by
    rw [List.map_take, ht, List.take_take, Nat.min_eq_left hij.le]
  rw [← keys_valuesOf hbefore]
  exact Metric.mem_keys_of_compute (h.compute_eq hi) hl

theorem Trail.not_unmetAt (h : Trail item t) (ht : t.map Prod.fst = d.metrics.take j)
    (hij : i < j) : ¬ UnmetAt d.metrics i m l := fun hunmet =>
  hunmet.unmet.not_mem (h.mem_keysBefore ht hij hunmet.metric hunmet.unmet.mem_dependsOn)

theorem outcome_ne_ok_of_unmetAt (hd : ev.definitionOf item = .ok (type, d))
    (h : UnmetAt d.metrics j m l) : ev.outcome item ≠ .ok e := by
  intro he
  obtain ⟨d', t, hd', ht, htrail, -⟩ := outcome_eq_ok_iff.mp he
  cases hd.symm.trans hd'
  obtain ⟨hj, -⟩ := List.getElem?_eq_some_iff.mp h.metric
  exact htrail.not_unmetAt (ht.trans List.take_length.symm) hj h

theorem outcome_eq_unmet_iff (hd : ev.definitionOf item = .ok (type, d))
    {metric dependency : String} :
    ev.outcome item = .error (.unmetDependency metric dependency) ↔
      ∃ j m l, FirstUnmetAt d.metrics j m l ∧
        (∃ t, t.map Prod.fst = d.metrics.take j ∧ Trail item t) ∧
        metric = m.key.text ∧ dependency = l.text := by
  rw [outcome_of_definitionOf hd, Except.map_eq_error_iff, run_eq_error_iff]
  constructor
  · rintro ⟨t, m, after, hms, htrail, he⟩
    obtain ⟨l, hl, rfl, rfl⟩ := Metric.compute_eq_unmet_iff.mp he
    have ht : t.map Prod.fst = d.metrics.take t.length := by
      rw [hms, List.take_left' (List.length_map _)]
    have hm : d.metrics[t.length]? = some m := by
      rw [hms, List.getElem?_append_right (List.length_map _).le, List.length_map, Nat.sub_self]
      rfl
    rw [keys_valuesOf ht] at hl
    exact ⟨t.length, m, l, ⟨⟨hm, hl⟩, fun i hi m' l' => htrail.not_unmetAt ht hi⟩,
      ⟨t, ht, htrail⟩, rfl, rfl⟩
  · rintro ⟨j, m, l, ⟨⟨hm, hl⟩, -⟩, ⟨t, ht, htrail⟩, rfl, rfl⟩
    obtain ⟨hj, hget⟩ := List.getElem?_eq_some_iff.mp hm
    refine ⟨t, m, d.metrics.drop (j + 1), ?_, htrail, ?_⟩
    · rw [ht, ← hget, List.getElem_cons_drop, List.take_append_drop]
    · rw [← keys_valuesOf ht] at hl
      exact Metric.compute_eq_unmet_iff.mpr ⟨l, hl, rfl, rfl⟩

/-- **Failures for a dependency are decided by the definition.** An item fails for a dependency when
its run comes to the first metric that depends on something not declared before it, and the failure
names that metric and the first such dependency. If there is such a metric no item is evaluated, and
if there is none no item fails for a dependency. -/
theorem evaluate_unmet_iff (hev : ev.Reachable) (hd : ev.definitions.find? type = some d)
    (htype : HasType item type) (log : Log) :
    (∀ metric dependency,
      ((ev.evaluate item).on log).1 = .error (.unmetDependency metric dependency) ↔
        ∃ j m l, FirstUnmetAt d.metrics j m l ∧
          (∃ t, t.map Prod.fst = d.metrics.take j ∧ Trail item t) ∧
          metric = m.key.text ∧ dependency = l.text) ∧
    ((∃ j m l, UnmetAt d.metrics j m l) → ∀ e, ((ev.evaluate item).on log).1 ≠ .ok e) ∧
    ((∀ j m l, ¬ UnmetAt d.metrics j m l) → ∀ metric dependency,
      ((ev.evaluate item).on log).1 ≠ .error (.unmetDependency metric dependency)) := by
  have hdefinition : ev.definitionOf item = .ok (type, d) :=
    definitionOf_eq_ok_iff.mpr ⟨htype, hev.contains hd, hd⟩
  simp only [fst_on_evaluate]
  refine ⟨fun metric dependency => outcome_eq_unmet_iff hdefinition, ?_, ?_⟩
  · rintro ⟨j, m, l, h⟩ e
    exact outcome_ne_ok_of_unmetAt hdefinition h
  · intro h metric dependency he
    obtain ⟨j, m, l, hfirst, -⟩ := (outcome_eq_unmet_iff hdefinition).mp he
    exact h j m l hfirst.toUnmetAt

open Sample

theorem evaluate_unmet_iff_sample :
    ∃ (ev : Evaluator) (d : TypeDefinition), ev.Reachable ∧
      ev.definitions.find? "task" = some d ∧
      ((ev.evaluate (task "x" ["a"])).on .disabled).1 =
        .error (.unmetDependency "total" "total") := by
  have hload : (Evaluator.new circular "derived" Sample.registry).map (fun ev =>
      (ev.definitions.find? "task").map fun d =>
        d.metrics.map fun m => (m.key.text, m.dependsOn.map Label.text)) =
      .ok (some [("total", ["total"])]) := by decide +kernel
  obtain ⟨ev, hnew, hload⟩ := Except.map_eq_ok_iff.mp hload
  obtain ⟨d, hd, hmetrics⟩ := Option.map_eq_some_iff.mp hload
  obtain ⟨m, hms, hm⟩ := List.map_eq_singleton_iff.mp hmetrics
  obtain ⟨hkey, hdependsOn⟩ := Prod.mk.inj hm
  obtain ⟨l, hl, htext⟩ := List.map_eq_singleton_iff.mp hdependsOn
  have hunmet : UnmetAt d.metrics 0 m l := by
    refine ⟨by rw [hms]; rfl, [], [], hl, ?_, ?_⟩
    · intro l' hl'
      cases hl'
    · exact List.not_mem_nil
  have hfirst : FirstUnmetAt d.metrics 0 m l :=
    ⟨hunmet, fun i hi => absurd hi (Nat.not_lt_zero i)⟩
  have hev : ev.Reachable := .new hnew
  refine ⟨ev, d, hev, hd, ?_⟩
  exact ((evaluate_unmet_iff hev hd (hasType_task "x" ["a"]) .disabled).1 _ _).mpr
    ⟨0, m, l, hfirst, ⟨[], rfl, .nil⟩, hkey.symm, htext.symm⟩

end Evaluator
end ItemMetrics
