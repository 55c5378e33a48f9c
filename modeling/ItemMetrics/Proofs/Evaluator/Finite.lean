import ItemMetrics.Proofs.Evaluator.References
import ItemMetrics.Proofs.Evaluator.Views
import ItemMetrics.Proofs.Metric.Finite

/-! # Finite evaluations

The values of an evaluation are numbers, truth values and texts as long as no metric divides by
something that is too small for what it divides (`Evaluator.evaluate_plain`). Ratios and rates of
counts never do (`Evaluator.evaluate_plain_of_counts`), but a constant that is tiny passes for one
that is not zero, and the value that comes of it is null (`Evaluator.evaluate_null`). -/

namespace ItemMetrics

open Double

variable {ev : Evaluator} {item : Json} {d : TypeDefinition} {e : Evaluation} {log : Log} {i : Nat}

namespace Evaluation

/-- No metric divides finite numbers whose quotient is more than `2 ^ 1022`. -/
def InRange (e : Evaluation) (d : TypeDefinition) : Prop :=
  ∀ (i : Nat) (m : Metric), d.metrics[i]? = some m → ¬ m.Overflows (e.reading i)

/-- The values in the tree stand under the keys, each a number, a truth value or a text. -/
def PlainUnder (e : Evaluation) (keys : List String) : Prop :=
  ∃ values : Json.Members, e.tree.get? "values" = some (.object values) ∧
    (values.map Prod.fst).Perm keys ∧ ∀ key value, (key, value) ∈ values → value.Plain

/-- The tree holds each entry once. -/
theorem exists_tree_values (e : Evaluation) :
    ∃ values : Json.Members, e.tree.get? "values" = some (.object values) ∧
      values.Perm (e.values.entries.map fun (key, value) => (key, value.toJson)) := by
  have hnodup : ((e.values.entries.map fun (key, value) => (key, value.toJson)).map
      Prod.fst).Nodup := by
    rw [List.map_map]
    exact e.values.nodup
  exact ⟨_, by rw [tree_eq]; rfl, Json.Members.perm_ofList hnodup⟩

/-- What holds of every value before a position and of zero holds of whatever is read there. -/
theorem reading_induction {p : Scalar → Prop} {s : String} (hzero : p (.integer 0))
    (h : ∀ j < i, ∀ value, e.values.entries[j]? = some (s, value) → p value) :
    p (e.reading i s) := by
  by_cases hs : ∃ j < i, ∃ value, e.values.entries[j]? = some (s, value)
  · obtain ⟨j, hj, value, hvalue⟩ := hs
    rw [reading_of_entry hj hvalue]
    exact h j hj value hvalue
  · rw [reading_of_not_exists hs]
    exact hzero

end Evaluation

namespace Sample

/-- A rate that divides by almost nothing. -/
def steep : Metric :=
  { perPage "total" [total.key] with
    config := [("metric", .string "total"),
      ("per", .number (.float 1e-308 (by decide +kernel)))] }

def overflowing : TypeDefinition := ⟨definition.type, [total, steep], by decide⟩

theorem namesNone_total : total.NamesNone := by
  intro op h
  have hop : Operation.ofName? total.operation.text = some .length := by decide
  cases hop.symm.trans h
  rfl

theorem ofCounts_spelt : ∀ m ∈ spelt.metrics, m.OfCounts spelt.metrics := by
  intro m hm
  rcases List.mem_cons.mp hm with rfl | hm
  · refine ⟨fun op key s hop hkey => ?_, fun per hper => by cases hper⟩
    rw [namesNone_total op hop] at hkey
    cases hkey
  · cases List.mem_singleton.mp hm
    refine ⟨fun op key s hop hkey hs m' hm' hkey' => ?_, fun per hper => ?_⟩
    · have hrate : Operation.ofName? (perPage "total" [total.key]).operation.text = some .rate := by
        decide
      cases hrate.symm.trans hop
      cases List.mem_singleton.mp hkey
      cases hs
      rcases List.mem_cons.mp hm' with rfl | hm'
      · exact namesNone_total
      · cases List.mem_singleton.mp hm'
        exact absurd hkey' (by decide)
    · cases hper
      obtain ⟨s, b, hb, -, hone⟩ := exists_isSigned_ofInt (n := 2) (N := 1) (by decide) (by decide)
        (by norm_num)
      exact ⟨s, b, hb, (zpow_le_one_of_nonpos₀ one_le_two (by decide)).trans (hone (by decide))⟩

end Sample

namespace Evaluator

/-- Each entry belongs to a metric of the definition, which was computed from those before it. -/
theorem exists_metric (h : ev.outcome item = .ok e) (hd : ev.definitions.find? e.type = some d)
    {key : String} {value : Scalar} (hi : e.values.entries[i]? = some (key, value)) :
    ∃ m c, d.metrics[i]? = some m ∧ m.key.text = key ∧ c.1 = value ∧
      m.compute item (.ofList (e.values.entries.take i)) = .ok c := by
  have hkeys := congrArg (·[i]?) (keys_of_outcome h hd)
  simp only [Values.keys, List.getElem?_map, hi] at hkeys
  obtain ⟨m, hm, hkey⟩ := Option.map_eq_some_iff.mp hkeys.symm
  obtain ⟨c, hc, hcompute⟩ := exists_compute_eq h hd hm
  cases hi.symm.trans hc
  exact ⟨m, c, hm, rfl, rfl, hcompute⟩

/-- The values are finite one after another. -/
theorem finite_of_outcome (h : ev.outcome item = .ok e)
    (hd : ev.definitions.find? e.type = some d) (hrange : e.InRange d) {key : String}
    {value : Scalar} (hi : e.values.entries[i]? = some (key, value)) : value.Finite := by
  induction i using Nat.strong_induction_on generalizing key value with
  | _ i ih =>
    obtain ⟨m, c, hm, -, rfl, hcompute⟩ := exists_metric h hd hi
    have hread (s : String) : (e.reading i s).Finite :=
      Evaluation.reading_induction trivial fun j hj _ hvalue => ih j hj hvalue
    exact Metric.finite_of_compute hcompute hread (hrange i m hm)

/-- Where each metric is of counts, no quotient is too large. -/
theorem inRange_of_counts (h : ev.outcome item = .ok e)
    (hd : ev.definitions.find? e.type = some d) (hcounts : ∀ m ∈ d.metrics, m.OfCounts d.metrics) :
    e.InRange d := by
  intro i m hm
  refine (hcounts m (List.mem_of_getElem? hm)).not_overflows fun s hs => ?_
  refine Evaluation.reading_induction trivial fun j _ value hvalue => ?_
  obtain ⟨m', c, hm', hkey, rfl, hcompute⟩ := exists_metric h hd hvalue
  exact (hs m' (List.mem_of_getElem? hm') hkey).whole_of_compute hcompute

/-- The tree of an evaluation whose values are finite. -/
theorem plainUnder_of_inRange (h : ev.outcome item = .ok e)
    (hd : ev.definitions.find? e.type = some d) (hrange : e.InRange d) :
    e.PlainUnder (d.metrics.map (·.key.text)) := by
  obtain ⟨values, hvalues, hperm⟩ := e.exists_tree_values
  refine ⟨values, hvalues, ?_, fun key value hmem => ?_⟩
  · have hkeys := hperm.map Prod.fst
    rw [List.map_map] at hkeys
    rwa [← keys_of_outcome h hd]
  · obtain ⟨⟨_, x⟩, hx, heq⟩ := List.mem_map.mp (hperm.mem_iff.mp hmem)
    cases heq
    obtain ⟨i, hi⟩ := List.mem_iff_getElem?.mp hx
    exact (finite_of_outcome h hd hrange hi).plain_toJson

/-- **Values have a number unless a quotient is too large.** Where an item is evaluated and no metric
divides finite numbers whose quotient is more than `2 ^ 1022`, each value in the tree is a number, a
truth value or a text. -/
theorem evaluate_plain (h : ((ev.evaluate item).on log).1 = .ok e)
    (hd : ev.definitions.find? e.type = some d) (hrange : e.InRange d) :
    e.PlainUnder (d.metrics.map (·.key.text)) :=
  plainUnder_of_inRange ((fst_on_evaluate _ _ _).symm.trans h) hd hrange

open Sample

theorem evaluate_plain_sample :
    ∃ e, (((evaluator spelt).evaluate (task "x" ["a", "b"])).on .disabled).1 = .ok e ∧
      e.InRange spelt ∧ e.PlainUnder ["total", "per_page"] := by
  obtain ⟨e, he, htype⟩ := Except.map_eq_ok_iff.mp
    (show (((evaluator spelt).evaluate (task "x" ["a", "b"])).on .disabled).1.map (·.type) =
      .ok "task" by decide +kernel)
  have hd : (evaluator spelt).definitions.find? e.type = some spelt := by
    rw [htype]
    exact find?_definitions_evaluator rfl
  have hrange := inRange_of_counts ((fst_on_evaluate _ _ _).symm.trans he) hd ofCounts_spelt
  exact ⟨e, he, hrange, evaluate_plain he hd hrange⟩

/-- A rate of two by `1e-308` is out of range, and the value in the tree is null. -/
theorem evaluate_null :
    ∃ e values, (((evaluator overflowing).evaluate (task "x" ["a", "b"])).on .disabled).1 = .ok e ∧
      e.tree.get? "values" = some (.object values) ∧ ("per_page", .null) ∈ values := by
  obtain ⟨e, he, hentries⟩ := Except.map_eq_ok_iff.mp
    (show (((evaluator overflowing).evaluate (task "x" ["a", "b"])).on .disabled).1.map
      (·.values.entries) = .ok [("total", .integer 2), ("per_page", .float (1 / 0))] by
        decide +kernel)
  obtain ⟨values, hvalues, hperm⟩ := e.exists_tree_values
  refine ⟨e, values, he, hvalues, hperm.mem_iff.mpr ?_⟩
  have hnull : Scalar.toJson (.float (1 / 0)) = .null :=
    Scalar.toJson_of_not_finite (show ¬ (1 / 0 : Float).isFinite = true by decide +kernel)
  rw [hentries, ← hnull]
  exact List.mem_cons_of_mem _ List.mem_cons_self

/-- Whatever the item, the values of counts divided by each other, or by a constant that is not
tiny, have a number. -/
theorem evaluate_plain_of_counts (h : ((ev.evaluate item).on log).1 = .ok e)
    (hd : ev.definitions.find? e.type = some d) (hcounts : ∀ m ∈ d.metrics, m.OfCounts d.metrics) :
    e.PlainUnder (d.metrics.map (·.key.text)) := by
  rw [fst_on_evaluate] at h
  exact plainUnder_of_inRange h hd (inRange_of_counts h hd hcounts)

end Evaluator
end ItemMetrics
