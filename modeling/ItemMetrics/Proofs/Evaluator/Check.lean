import ItemMetrics.Proofs.Evaluator.Outcome
import ItemMetrics.Proofs.Metric.Check

/-! # Every item finds the faults of a definition

A definition is checked metric by metric, with the keys declared before (`TypeDefinition.check`).
Along a run no value is a text, so each metric comes to what its check comes to, and the outcome for
any item is that of the check (`Evaluator.map_outcome`). A malformed configuration hence surfaces on
the first item, whichever it is (`Evaluator.evaluate_uniform`). -/

namespace ItemMetrics

/-- Checks metrics one after another, after metrics with the given keys. -/
def checkAll : List String → List Metric → Except EvaluationError Unit
  | _, [] => .ok ()
  | keys, m :: ms => do
    m.check keys
    checkAll (keys ++ [m.key.text]) ms

def TypeDefinition.check (d : TypeDefinition) : Except EvaluationError Unit :=
  checkAll [] d.metrics

/-- The fallback of every ratio is a number or a truth value, if there is one. -/
def TypeDefinition.PlainDefaults (d : TypeDefinition) : Prop :=
  ∀ m ∈ d.metrics, Operation.ofName? m.operation.text = some .ratio → m.PlainDefault

theorem ofDeclaration_of_checkAll {keys : List String} {ms : List Metric} {e : EvaluationError}
    (h : checkAll keys ms = .error e) : e.OfDeclaration := by
  induction ms generalizing keys with
  | nil => cases h
  | cons m ms ih =>
    obtain h | ⟨_, -, h⟩ := Except.bind_eq_error_iff.mp h
    · exact Metric.ofDeclaration_of_check h
    · exact ih h

namespace Evaluator

variable {ev : Evaluator} {item : Json} {type : String} {d : TypeDefinition} {m : Metric}
  {ms : List Metric} {p p' : Progress}

/-- A step leaves no text among the values and extends the keys. -/
theorem advance_noText (h : advance item p m = .ok p') (hp : p.values.NoText)
    (hdefault : Operation.ofName? m.operation.text = some .ratio → m.PlainDefault)
    (hkey : m.key.text ∉ p.values.keys) :
    p'.values.NoText ∧ p'.values.keys = p.values.keys ++ [m.key.text] := by
  obtain ⟨c, hc, h⟩ := Except.bind_eq_ok_iff.mp h
  cases h
  refine ⟨hp.insert (Metric.compute_ne_text hc hdefault) hkey, ?_⟩
  rw [Values.keys, Values.entries_insert_of_not_mem hkey, List.map_append]
  rfl

theorem map_advance (item : Json) (hp : p.values.NoText)
    (hdefault : Operation.ofName? m.operation.text = some .ratio → m.PlainDefault) :
    (advance item p m).map (fun _ => ()) = m.check p.values.keys := by
  rw [← Metric.map_compute item hp hdefault, advance]
  cases m.compute item p.values <;> rfl

/-- A run comes to what the check comes to. -/
theorem map_run (hp : p.values.NoText)
    (hdefault : ∀ m ∈ ms, Operation.ofName? m.operation.text = some .ratio → m.PlainDefault)
    (hnodup : (p.values.keys ++ ms.map (·.key.text)).Nodup) :
    (ms.foldlM (advance item) p).map (fun _ => ()) = checkAll p.values.keys ms := by
  -- the invariant is `p.values.NoText`, with the keys of `p` being those the check has come to
  induction ms generalizing p with
  | nil => rfl
  | cons m ms ih =>
    have hm := hdefault m List.mem_cons_self
    have hkey : m.key.text ∉ p.values.keys := by
      intro hmem
      exact (List.nodup_append.mp hnodup).2.2 _ hmem _ List.mem_cons_self rfl
    rw [List.foldlM_cons, checkAll, ← map_advance item hp hm]
    cases hadvance : advance item p m with
    | error e => rfl
    | ok p' =>
      obtain ⟨hp', hkeys⟩ := advance_noText hadvance hp hm hkey
      have hrest := ih hp' (fun m hm => hdefault m (List.mem_cons_of_mem _ hm)) (by
        rwa [hkeys, List.append_assoc])
      rw [hkeys] at hrest
      exact hrest

/-- Evaluating an item fails as the check of its definition does. -/
theorem map_outcome (hd : ev.definitionOf item = .ok (type, d)) (hdefault : d.PlainDefaults) :
    (ev.outcome item).map (fun _ => ()) = d.check := by
  have hrun : (d.metrics.foldlM (advance item) ⟨∅, []⟩).map (fun _ => ()) = d.check :=
    map_run Values.noText_empty hdefault d.nodup_keys
  rw [outcome_of_definitionOf hd, ← hrun]
  cases d.metrics.foldlM (advance item) ⟨∅, []⟩ <;> rfl

open Sample

example : TypeDefinition.check ⟨label "task", [share, total, tagged], by decide⟩ =
    .error (.unmetDependency "share" "total") := by
  decide +kernel

/-- **A malformed configuration surfaces on the first item, whichever item that is.** -/
theorem evaluate_uniform {item' : Json} (hd : ev.definitions.find? type = some d)
    (hregistry : ev.registry.contains type = true) (hdefault : d.PlainDefaults)
    (htype : HasType item type) (htype' : HasType item' type) (log log' : Log) :
    ((∃ e, ((ev.evaluate item).on log).1 = .ok e) ↔
      ∃ e, ((ev.evaluate item').on log').1 = .ok e) ∧
    (∀ err, ((ev.evaluate item).on log).1 = .error err ↔
      ((ev.evaluate item').on log').1 = .error err) ∧
    ∀ metric source, ((ev.evaluate item).on log).1 ≠ .error (.nonNumericMetric metric source) := by
  have hcheck : (ev.outcome item).map (fun _ => ()) = d.check :=
    map_outcome (definitionOf_eq_ok_iff.mpr ⟨htype, hregistry, hd⟩) hdefault
  have hcheck' : (ev.outcome item').map (fun _ => ()) = d.check :=
    map_outcome (definitionOf_eq_ok_iff.mpr ⟨htype', hregistry, hd⟩) hdefault
  simp only [fst_on_evaluate]
  refine ⟨?_, fun err => ?_, fun metric source he => ?_⟩
  · rw [Except.exists_ok_iff, Except.exists_ok_iff, hcheck, hcheck']
  · rw [← Except.map_eq_error_iff, hcheck, ← hcheck', Except.map_eq_error_iff]
  · rw [← Except.map_eq_error_iff, hcheck] at he
    exact nomatch ofDeclaration_of_checkAll he

theorem evaluate_uniform_sample :
    ∃ e, (((evaluator definition).evaluate (task "y" [])).on .disabled).1 = .ok e := by
  have hdefault : definition.PlainDefaults := by
    intro m hm _ value hvalue
    rcases mem_metrics_definition hm with rfl | rfl | rfl <;> cases hvalue
  obtain ⟨e, he, -⟩ := evaluate_definition
  have h := evaluate_uniform (find?_definitions_evaluator rfl) rfl hdefault
    (hasType_task "x" ["a"]) (hasType_task "y" []) .disabled .disabled
  exact h.1.mp ⟨e, he⟩

end Evaluator
end ItemMetrics
