import ItemMetrics.Proofs.Evaluator.Dependency

/-! # Which metrics a result credits

What a result records for a metric is read off its declaration (`Evaluator.Trail.provenance_iff`),
and a metric that is named there but not computed counts as zero. So it is the definition that
decides whether a result credits only metrics computed before
(`Evaluator.evaluate_creditsComputed_iff`), and a misspelt name is credited as any other
(`Evaluator.evaluate_credits_uncomputed`). -/

namespace ItemMetrics

/-- Every metric that is credited stands among the values at a smaller position. -/
def Evaluation.CreditsComputed (e : Evaluation) : Prop :=
  ∀ (i : Nat) (key : String) (sources : List Source) (k : String),
    e.provenance[i]? = some (key, sources) → .metric k ∈ sources → k ∈ e.values.keys.take i

/-- Every metric that is named to an operation is declared before the metric that names it. -/
def TypeDefinition.NamesDeclared (d : TypeDefinition) : Prop :=
  ∀ (i : Nat) (m : Metric) (op : Operation) (k : String), d.metrics[i]? = some m →
    Operation.ofName? m.operation.text = some op → .metric k ∈ op.sources m →
    k ∈ keysBefore d.metrics i

/-- Every metric that is named to an operation is a dependency of the metric that names it. -/
def TypeDefinition.DependsOnNamed (d : TypeDefinition) : Prop :=
  ∀ m ∈ d.metrics, ∀ op k, Operation.ofName? m.operation.text = some op →
    .metric k ∈ op.sources m → ∃ l ∈ m.dependsOn, l.text = k

namespace Sample

/-- A rate of the metric with the given name. -/
def perPage (name : String) (dependsOn : List Label) : Metric where
  key := label "per_page"
  description := label "Tags by two"
  operation := label "rate"
  config := [("metric", .string name), ("per", .number (.int 2 (by decide) (by decide)))]
  dependsOn := dependsOn

def spelt : TypeDefinition :=
  ⟨definition.type, [total, perPage "total" [total.key]], by decide⟩

/-- The rate names a metric that is not declared. -/
def misspelt : TypeDefinition := ⟨definition.type, [total, perPage "totl" []], by decide⟩

end Sample

namespace Evaluator

variable {ev : Evaluator} {item : Json} {d : TypeDefinition} {e : Evaluation}
  {t : List (Metric × Computed)} {i : Nat} {log : Log}

theorem Trail.provenance_iff (h : Trail item t) {key : String} {sources : List Source} :
    (provenanceOf t)[i]? = some (key, sources) ↔
      ∃ m op, (t.map Prod.fst)[i]? = some m ∧ Operation.ofName? m.operation.text = some op ∧
        key = m.key.text ∧ sources = op.sources m := by
  rw [provenanceOf, List.getElem?_map, List.getElem?_map]
  constructor
  · intro hi
    obtain ⟨⟨m, c⟩, hget, heq⟩ := Option.map_eq_some_iff.mp hi
    obtain ⟨op, hop, hc⟩ := Metric.sources_of_compute (h.compute_eq hget)
    cases heq
    exact ⟨m, op, by rw [hget]; rfl, hop, rfl, hc⟩
  · rintro ⟨m, op, hi, hop, rfl, rfl⟩
    obtain ⟨⟨_, c⟩, hget, rfl⟩ := Option.map_eq_some_iff.mp hi
    obtain ⟨op', hop', hc⟩ := Metric.sources_of_compute (h.compute_eq hget)
    cases hop.symm.trans hop'
    rw [hget, ← hc]
    rfl

theorem outcome_creditsComputed_iff (h : ev.outcome item = .ok e)
    (hd : ev.definitions.find? e.type = some d) : e.CreditsComputed ↔ d.NamesDeclared := by
  obtain ⟨d', t, hd', ht, htrail, hvalues, hprovenance⟩ := outcome_eq_ok_iff.mp h
  cases hd.symm.trans (definitionOf_eq_ok_iff.mp hd').2.2
  have hkeys (i : Nat) : e.values.keys.take i = keysBefore d.metrics i := by
    rw [hvalues, keys_valuesOf (ht.trans List.take_length.symm), keysBefore, keysBefore,
      List.take_length, List.map_take]
  constructor
  · intro hcredits i m op k hm hop hk
    rw [← hkeys]
    refine hcredits i m.key.text (op.sources m) k ?_ hk
    rw [hprovenance]
    exact htrail.provenance_iff.mpr ⟨m, op, by rw [ht, hm], hop, rfl, rfl⟩
  · intro hnames i key sources k hi hk
    rw [hprovenance] at hi
    obtain ⟨m, op, hm, hop, -, rfl⟩ := htrail.provenance_iff.mp hi
    rw [hkeys]
    exact hnames i m op k (by rw [← ht, hm]) hop hk

theorem namesDeclared_of_dependsOnNamed (h : ev.outcome item = .ok e)
    (hd : ev.definitions.find? e.type = some d) (hnamed : d.DependsOnNamed) : d.NamesDeclared := by
  obtain ⟨d', t, hd', ht, htrail, -⟩ := outcome_eq_ok_iff.mp h
  cases hd.symm.trans (definitionOf_eq_ok_iff.mp hd').2.2
  intro i m op k hm hop hk
  obtain ⟨l, hl, rfl⟩ := hnamed m (List.mem_of_getElem? hm) op k hop hk
  obtain ⟨hi, -⟩ := List.getElem?_eq_some_iff.mp hm
  exact htrail.mem_keysBefore (ht.trans List.take_length.symm) hi hm hl

/-- **Which metrics are credited is decided by the definition.** A result credits only metrics
computed before exactly when its definition names only metrics declared before, as it does when
every metric depends on those it names. -/
theorem evaluate_creditsComputed_iff (h : ((ev.evaluate item).on log).1 = .ok e)
    (hd : ev.definitions.find? e.type = some d) :
    (e.CreditsComputed ↔ d.NamesDeclared) ∧ (d.DependsOnNamed → e.CreditsComputed) := by
  rw [fst_on_evaluate] at h
  have hiff := outcome_creditsComputed_iff h hd
  exact ⟨hiff, fun hnamed => hiff.mpr (namesDeclared_of_dependsOnNamed h hd hnamed)⟩

open Sample

theorem evaluate_creditsComputed_iff_sample :
    ∃ e, (((evaluator spelt).evaluate (task "x" ["a"])).on .disabled).1 = .ok e ∧
      e.CreditsComputed := by
  have htype : (((evaluator spelt).evaluate (task "x" ["a"])).on .disabled).1.map
      Evaluation.type = .ok "task" := by decide +kernel
  obtain ⟨e, he, htype⟩ := Except.map_eq_ok_iff.mp htype
  have hd : (evaluator spelt).definitions.find? e.type = some spelt := by
    rw [htype]
    exact find?_definitions_evaluator rfl
  refine ⟨e, he, (evaluate_creditsComputed_iff he hd).2 fun m hm op k _ hk => ?_⟩
  cases Metric.refersTo_of_mem_sources hk with
  | dependency hl htext => exact ⟨_, hl, htext⟩
  | named hkey hconfig =>
    simp only [spelt, List.mem_cons, List.not_mem_nil, or_false] at hm hkey
    rcases hm with rfl | rfl <;> rcases hkey with rfl | rfl | rfl <;> cases hconfig
    exact ⟨total.key, List.mem_singleton_self _, rfl⟩

/-- A rate of a metric that nothing declares is computed, and the metric is credited for it. -/
theorem evaluate_credits_uncomputed :
    ∃ e, (((evaluator misspelt).evaluate (task "x" ["a"])).on .disabled).1 = .ok e ∧
      ¬ e.CreditsComputed := by
  have hresult : (((evaluator misspelt).evaluate (task "x" ["a"])).on .disabled).1.map
      (fun e => (e.values.keys, e.provenance)) = .ok (["total", "per_page"],
        [("total", [.path "tags"]), ("per_page", [.metric "totl"])]) := by decide +kernel
  obtain ⟨e, he, hresult⟩ := Except.map_eq_ok_iff.mp hresult
  obtain ⟨hkeys, hprovenance⟩ := Prod.mk.inj hresult
  refine ⟨e, he, fun hcredits => ?_⟩
  have hmem := hcredits 1 "per_page" [.metric "totl"] "totl" (by rw [hprovenance]; rfl)
    List.mem_cons_self
  rw [hkeys] at hmem
  revert hmem
  decide

end Evaluator
end ItemMetrics
