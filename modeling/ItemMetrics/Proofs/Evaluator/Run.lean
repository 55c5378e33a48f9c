import Mathlib.Data.List.Induction
import ItemMetrics.Evaluator.Basic
import ItemMetrics.Proofs.Except
import ItemMetrics.Proofs.Metric.Values
import ItemMetrics.Proofs.Trace.Logged

/-! # The run over the metrics of an item

What comes out of evaluating an item is the same on every log (`Evaluator.fst_on_evaluate`). A run
over a list of metrics is told by its trail: each metric with what was computed for it from the
values of those before it (`Evaluator.Trail`). -/

namespace ItemMetrics.Evaluator

/-! ## Evaluation without a log -/

/-- Computes one metric after others. -/
def advance (item : Json) (p : Progress) (m : Metric) : Except EvaluationError Progress := do
  let (value, sources) ← m.compute item p.values
  return ⟨p.values.insert m.key.text value, p.provenance ++ [(m.key.text, sources)]⟩

/-- What comes out of evaluating an item. -/
def outcome (ev : Evaluator) (item : Json) : Except EvaluationError Evaluation := do
  let (type, definition) ← ev.definitionOf item
  let p ← definition.metrics.foldlM (advance item) ⟨∅, []⟩
  return { type, values := p.values, provenance := p.provenance }

variable {item : Json} {type : String} {span : Span} {log : Log} {p : Progress} {m : Metric}
  {ms : List Metric}

theorem fst_on_computeNext : ((computeNext type item span p m).on log).1 = advance item p m := by
  simp only [computeNext, advance, Logged.fst_on_bind, Logged.on_ofExcept, Logged.on_emit,
    Logged.on_pure, Except.ok_bind]
  rfl

theorem fst_on_foldlM_computeNext :
    ((ms.foldlM (computeNext type item span) p).on log).1 = ms.foldlM (advance item) p := by
  induction ms generalizing p log with
  | nil => rfl
  | cons m ms ih =>
    rw [List.foldlM_cons, List.foldlM_cons, Logged.fst_on_bind, fst_on_computeNext]
    exact congrArg _ (funext fun p => ih)

/-- The log has no part in what comes out. -/
theorem fst_on_evaluate (ev : Evaluator) (item : Json) (log : Log) :
    ((ev.evaluate item).on log).1 = ev.outcome item := by
  simp only [evaluate, outcome, Logged.fst_on_bind, Logged.on_ofExcept, Logged.on_emit,
    Logged.on_pure, Logged.on_inSpan, fst_on_foldlM_computeNext, Except.ok_bind]
  rfl

/-! ## Trails -/

/-- The values in a list of metrics with what was computed for them. -/
def valuesOf (t : List (Metric × Computed)) : Values :=
  .ofList (t.map fun (m, c) => (m.key.text, c.1))

/-- The sources in a list of metrics with what was computed for them. -/
def provenanceOf (t : List (Metric × Computed)) : List (String × List Source) :=
  t.map fun (m, c) => (m.key.text, c.2)

/-- Each metric was computed from the values of those before it. -/
def Trail (item : Json) (t : List (Metric × Computed)) : Prop :=
  ∀ before m c after, t = before ++ (m, c) :: after → m.compute item (valuesOf before) = .ok c

variable {t : List (Metric × Computed)} {c : Computed} {e : EvaluationError}

theorem Trail.nil : Trail item [] := fun _ _ _ _ h => by simp at h

theorem trail_append_singleton_iff :
    Trail item (t ++ [(m, c)]) ↔ Trail item t ∧ m.compute item (valuesOf t) = .ok c := by
  constructor
  · intro h
    refine ⟨fun before m' c' after ht => h before m' c' (after ++ [(m, c)]) ?_, h t m c [] rfl⟩
    rw [ht, List.append_assoc, List.cons_append]
  · rintro ⟨ht, hc⟩ before m' c' after h
    rcases List.eq_nil_or_concat after with rfl | ⟨after, last, rfl⟩
    · obtain ⟨rfl, hlast⟩ := List.append_inj' h rfl
      cases hlast
      exact hc
    · rw [List.concat_eq_append, ← List.cons_append, ← List.append_assoc] at h
      exact ht before m' c' after (List.append_inj' h rfl).1

theorem Trail.compute_eq {i : Nat} (h : Trail item t) (hi : t[i]? = some (m, c)) :
    m.compute item (valuesOf (t.take i)) = .ok c := by
  obtain ⟨hlt, hget⟩ := List.getElem?_eq_some_iff.mp hi
  refine h (t.take i) m c (t.drop (i + 1)) ?_
  rw [← hget, List.getElem_cons_drop, List.take_append_drop]

theorem valuesOf_append_singleton :
    valuesOf (t ++ [(m, c)]) = (valuesOf t).insert m.key.text c.1 := by
  rw [valuesOf, List.map_append, List.map_singleton, Values.ofList_append_singleton, valuesOf]

theorem entries_valuesOf (h : (t.map (·.1.key.text)).Nodup) :
    (valuesOf t).entries = t.map fun (m, c) => (m.key.text, c.1) :=
  Values.entries_ofList (by rwa [List.map_map])

theorem keys_valuesOf_of_nodup (h : (t.map (·.1.key.text)).Nodup) :
    (valuesOf t).keys = t.map (·.1.key.text) := by
  rw [Values.keys, entries_valuesOf h, List.map_map]
  rfl

theorem get?_valuesOf {k : String} {v : Scalar} (h : (t.map (·.1.key.text)).Nodup) :
    (valuesOf t).get? k = some v ↔ ∃ m c, (m, c) ∈ t ∧ m.key.text = k ∧ c.1 = v := by
  rw [Values.get?_eq_some_iff, entries_valuesOf h]
  simp

theorem advance_eq_ok_iff :
    advance item ⟨valuesOf t, provenanceOf t⟩ m = .ok p ↔
      ∃ c, m.compute item (valuesOf t) = .ok c ∧
        p = ⟨valuesOf (t ++ [(m, c)]), provenanceOf (t ++ [(m, c)])⟩ := by
  simp only [advance, Except.bind_eq_ok_iff, valuesOf_append_singleton, provenanceOf,
    List.map_append, List.map_singleton]
  exact exists_congr fun c => and_congr_right fun _ => by simp [pure, Except.pure, eq_comm]

theorem advance_eq_error_iff :
    advance item p m = .error e ↔ m.compute item p.values = .error e := by
  simp [advance, Except.bind_eq_error_iff, pure, Except.pure]

/-! ## Runs -/

/-- A run succeeds when there is a trail through all the metrics, and gives what is on it. -/
theorem run_eq_ok_iff :
    ms.foldlM (advance item) ⟨∅, []⟩ = .ok p ↔
      ∃ t, t.map Prod.fst = ms ∧ Trail item t ∧ p = ⟨valuesOf t, provenanceOf t⟩ := by
  -- from the right: it is the last metric that sees everything on the trail
  induction ms using List.reverseRecOn generalizing p with
  | nil =>
    constructor
    · intro h
      cases h
      exact ⟨[], rfl, .nil, rfl⟩
    · rintro ⟨t, ht, -, rfl⟩
      cases List.map_eq_nil_iff.mp ht
      rfl
  | append_singleton ms m ih =>
    rw [List.foldlM_append, Except.bind_eq_ok_iff]
    simp only [ih, List.foldlM_cons, List.foldlM_nil, bind_pure]
    constructor
    · rintro ⟨_, ⟨t, rfl, ht, rfl⟩, h⟩
      obtain ⟨c, hc, rfl⟩ := advance_eq_ok_iff.mp h
      exact ⟨t ++ [(m, c)], by simp, trail_append_singleton_iff.mpr ⟨ht, hc⟩, rfl⟩
    · rintro ⟨t', ht', htrail, rfl⟩
      obtain ⟨t, last, rfl, rfl, hlast⟩ := List.map_eq_append_iff.mp ht'
      obtain ⟨⟨_, c⟩, rfl, rfl⟩ := List.map_eq_singleton_iff.mp hlast
      obtain ⟨ht, hc⟩ := trail_append_singleton_iff.mp htrail
      exact ⟨_, ⟨t, rfl, ht, rfl⟩, advance_eq_ok_iff.mpr ⟨c, hc, rfl⟩⟩

/-- A run fails as the first metric fails that a trail does not get past. -/
theorem run_eq_error_iff :
    ms.foldlM (advance item) ⟨∅, []⟩ = .error e ↔
      ∃ t m after, ms = t.map Prod.fst ++ m :: after ∧ Trail item t ∧
        m.compute item (valuesOf t) = .error e := by
  induction ms using List.reverseRecOn with
  | nil =>
    refine ⟨nofun, ?_⟩
    rintro ⟨t, m, after, h, -⟩
    simp at h
  | append_singleton ms m ih =>
    rw [List.foldlM_append, Except.bind_eq_error_iff]
    simp only [ih, run_eq_ok_iff, List.foldlM_cons, List.foldlM_nil, bind_pure]
    constructor
    · rintro (⟨t, m', after, rfl, ht, he⟩ | ⟨_, ⟨t, rfl, ht, rfl⟩, he⟩)
      · exact ⟨t, m', after ++ [m], by simp, ht, he⟩
      · exact ⟨t, m, [], rfl, ht, advance_eq_error_iff.mp he⟩
    · rintro ⟨t, m', after, h, ht, he⟩
      rcases List.eq_nil_or_concat after with rfl | ⟨after, last, rfl⟩
      · obtain ⟨rfl, hm⟩ := List.append_inj' h rfl
        cases hm
        exact .inr ⟨_, ⟨t, rfl, ht, rfl⟩, advance_eq_error_iff.mpr he⟩
      · rw [List.concat_eq_append, ← List.cons_append, ← List.append_assoc] at h
        exact .inl ⟨t, m', after, (List.append_inj' h rfl).1, ht, he⟩

end ItemMetrics.Evaluator
