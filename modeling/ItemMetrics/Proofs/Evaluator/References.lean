import ItemMetrics.Proofs.Evaluator.Credit
import ItemMetrics.Proofs.Metric.Definition
import ItemMetrics.Proofs.Metric.Quotient

/-! # Names of metrics in a configuration

The key of a metric is read from a document without the blanks around it, as dependencies are, but
the names in its configuration are kept as they are written. A name with blanks around it is no key,
so the operation reads zero where a metric with the trimmed name was computed
(`Evaluator.evaluate_reads_written`, `Evaluator.evaluate_misses_padded`). -/

namespace ItemMetrics

/-- An entry of a document names a metric to its operation: the configuration has the text where
the operation looks for the key of a metric. -/
inductive Metric.Names (entry : Json) (s : String) : Prop where
  | intro {l : Label} {op : Operation} {key : String} {config : Json.Members} :
    entry.HoldsLabel "operation" l → Operation.ofName? l.text = some op → key ∈ op.metricKeys →
    entry.get? "config" = some (.object config) → config.get? key = some (.string s) →
    Names entry s

/-- What the operation of the metric at a position reads for a metric that is named to it. -/
def Evaluation.reading (e : Evaluation) (i : Nat) : String → Scalar :=
  Metric.reference (.ofList (e.values.entries.take i))

namespace Sample

/-- An entry for how many tags an item has. -/
def totalEntry : Json :=
  .object
    [("config", .object total.config), ("description", .string "Tags"), ("key", .string "total"),
      ("operation", .string "length")]

/-- An entry for a rate of the metric with the given name, which it depends on as well. -/
def perPageEntry (name : String) : Json :=
  .object
    [("config", .object (perPage name []).config), ("depends_on", .strings [name]),
      ("description", .string "Tags by two"), ("key", .string "per_page"),
      ("operation", .string "rate")]

theorem names_perPageEntry (name : String) : Metric.Names (perPageEntry name) name := by
  have htrim : Text.trim "rate" = "rate" := by decide
  have hop : Operation.ofName? "rate" = some .rate := by decide
  exact .intro (l := (perPage name []).operation) ⟨_, rfl, _, rfl, htrim⟩ hop List.mem_cons_self
    rfl rfl

end Sample

variable {e : Evaluation} {i : Nat} {s : String}

namespace Evaluation

theorem reading_of_entry {j : Nat} {value : Scalar} (hj : j < i)
    (h : e.values.entries[j]? = some (s, value)) : e.reading i s = value := by
  rw [reading, Metric.reference, Values.get?_ofList_take.mpr ⟨j, hj, h⟩, Option.getD_some]

/-- A metric that was not computed before is read as zero. -/
theorem reading_of_not_exists (h : ¬ ∃ j < i, ∃ value, e.values.entries[j]? = some (s, value)) :
    e.reading i s = .integer 0 := by
  have hnone : (Values.ofList (e.values.entries.take i)).get? s = none := by
    rw [Option.eq_none_iff_forall_ne_some]
    intro value hvalue
    obtain ⟨j, hj, hvalue⟩ := Values.get?_ofList_take.mp hvalue
    exact h ⟨j, hj, value, hvalue⟩
  rw [reading, Metric.reference, hnone, Option.getD_none]

theorem reading_of_not_mem (h : s ∉ e.values.keys) : e.reading i s = .integer 0 := by
  refine reading_of_not_exists ?_
  rintro ⟨j, -, value, hj⟩
  exact h (List.mem_map_of_mem (List.mem_of_getElem? hj))

end Evaluation

/-- Related lists are related in each place. -/
theorem forall₂_getElem? {α β : Type} {R : α → β → Prop} {as : List α} {bs : List β} {a : α}
    (h : List.Forall₂ R as bs) (ha : as[i]? = some a) : ∃ b, bs[i]? = some b ∧ R a b := by
  induction h generalizing i with
  | nil => simp at ha
  | cons hab _ ih =>
    cases i with
    | zero =>
      cases ha
      exact ⟨_, rfl, hab⟩
    | succ i => exact ih ha

namespace Evaluator

variable {ev : Evaluator} {item : Json} {d : TypeDefinition} {log : Log} {payload entry : Json}
  {entries : List Json} {source : String}

theorem trimmed_of_mem_keys (h : ev.outcome item = .ok e)
    (hd : ev.definitions.find? e.type = some d) (hs : s ∈ e.values.keys) : Text.trim s = s := by
  rw [keys_of_outcome h hd] at hs
  obtain ⟨m, -, rfl⟩ := List.mem_map.mp hs
  exact m.key.trimmed

/-- An entry that names a metric is computed from what it reads. -/
theorem combines_of_names (h : ev.outcome item = .ok e)
    (hd : ev.definitions.find? e.type = some d) {m : Metric} (hm : d.metrics[i]? = some m)
    (hentry : Metric.Declared entry m) (hs : Metric.Names entry s) :
    ∃ value, e.values.entries[i]? = some (m.key.text, value) ∧ m.Combines (e.reading i) value := by
  obtain ⟨c, hi, hc⟩ := exists_compute_eq h hd hm
  obtain ⟨hl, hop, hkey, -, -⟩ := hs
  cases hl.unique hentry.operation
  exact ⟨c.1, hi, Metric.combines_of_compute hc hop (List.ne_nil_of_mem hkey)⟩

/-- **Names of metrics are looked up as they are written.** Where a document names a metric that is,
but for blanks around the name, declared earlier, the operation computes with the value of that
metric if there are no such blanks, and with zero if there are. -/
theorem evaluate_reads_written (hread : TypeDefinition.ofJson payload source = .ok d)
    (hd : ev.definitions.find? e.type = some d) (h : ((ev.evaluate item).on log).1 = .ok e)
    (hentries : payload.get? "metrics" = some (.array entries)) (hi : entries[i]? = some entry)
    (hs : Metric.Names entry s) {j : Nat} (hj : j < i) {earlier : Json} {l : Label}
    (hearlier : entries[j]? = some earlier) (hl : earlier.HoldsLabel "key" l)
    (htrim : Text.trim s = l.text) :
    ∃ m value read, d.metrics[i]? = some m ∧ Metric.Declared entry m ∧
      e.values.entries[i]? = some (m.key.text, value) ∧ m.Combines (e.reading i) value ∧
      e.values.entries[j]? = some (l.text, read) ∧
      e.reading i s = if Text.trim s = s then read else .integer 0 := by
  rw [fst_on_evaluate] at h
  obtain ⟨-, entries', hentries', hdeclared⟩ := TypeDefinition.ofJson_eq_ok_iff_declared.mp hread
  cases hentries.symm.trans hentries'
  obtain ⟨m, hm, hentry⟩ := forall₂_getElem? hdeclared hi
  obtain ⟨m', hm', hentry'⟩ := forall₂_getElem? hdeclared hearlier
  obtain ⟨value, hvalue, hcombines⟩ := combines_of_names h hd hm hentry hs
  obtain ⟨c, hc, -⟩ := exists_compute_eq h hd hm'
  cases hl.unique hentry'.key
  refine ⟨m, value, c.1, hm, hentry, hvalue, hcombines, hc, ?_⟩
  split
  · next heq =>
    rw [← htrim, heq] at hc
    exact Evaluation.reading_of_entry hj hc
  · next hne => exact Evaluation.reading_of_not_mem fun hmem => hne (trimmed_of_mem_keys h hd hmem)

open Sample

/-- The entries of an evaluation from a document with the two entries above. -/
theorem exists_evaluation (name : String) (value : Scalar)
    (h : (TypeDefinition.ofJson (document [totalEntry, perPageEntry name]) "task.yaml").map
      (fun d => (d.type.text, (((evaluator d).evaluate (task "x" ["a", "b"])).on .disabled).1.map
        fun e => (e.type, e.values.entries))) =
      .ok ("task", .ok ("task", [("total", .integer 2), ("per_page", value)]))) :
    ∃ d e, TypeDefinition.ofJson (document [totalEntry, perPageEntry name]) "task.yaml" = .ok d ∧
      (((evaluator d).evaluate (task "x" ["a", "b"])).on .disabled).1 = .ok e ∧
      (evaluator d).definitions.find? e.type = some d ∧
      e.values.entries = [("total", .integer 2), ("per_page", value)] := by
  obtain ⟨d, hd, h⟩ := Except.map_eq_ok_iff.mp h
  obtain ⟨htype, h⟩ := Prod.mk.inj h
  obtain ⟨e, he, h⟩ := Except.map_eq_ok_iff.mp h
  obtain ⟨htype', hentries⟩ := Prod.mk.inj h
  refine ⟨d, e, hd, he, ?_, hentries⟩
  rw [htype']
  exact find?_definitions_evaluator htype

theorem evaluate_reads_written_sample :
    ∃ d e, TypeDefinition.ofJson (document [totalEntry, perPageEntry "total"]) "task.yaml" = .ok d ∧
      (((evaluator d).evaluate (task "x" ["a", "b"])).on .disabled).1 = .ok e ∧
      e.reading 1 "total" = .integer 2 ∧ e.value? "per_page" = some (.float 1) := by
  obtain ⟨d, e, hread, he, hd, hentries⟩ := exists_evaluation "total" (.float 1) (by decide +kernel)
  obtain ⟨m, value, read, -, -, -, -, hj, hreading⟩ := evaluate_reads_written hread hd he rfl rfl
    (names_perPageEntry "total") (Nat.zero_lt_one) rfl (l := total.key) ⟨_, rfl, _, rfl, rfl⟩ rfl
  rw [hentries] at hj
  cases hj
  exact ⟨d, e, hread, he, hreading, by rw [Evaluation.value?, Values.get?, hentries]; rfl⟩

/-- A rate of a metric that is named with blanks around its key is computed from zero. -/
theorem evaluate_misses_padded :
    Metric.Names (perPageEntry " total ") " total " ∧ Text.trim " total " = "total" ∧
      ∃ d e, TypeDefinition.ofJson (document [totalEntry, perPageEntry " total "]) "task.yaml" =
        .ok d ∧ (((evaluator d).evaluate (task "x" ["a", "b"])).on .disabled).1 = .ok e ∧
      e.value? "total" = some (.integer 2) ∧ e.reading 1 " total " = .integer 0 ∧
      e.value? "per_page" = some (.float 0) := by
  obtain ⟨d, e, hread, he, hd, hentries⟩ :=
    exists_evaluation " total " (.float 0) (by decide +kernel)
  have hnot : " total " ∉ e.values.keys := by
    rw [Values.keys, hentries]
    decide
  refine ⟨names_perPageEntry " total ", by decide, d, e, hread, he, ?_,
    Evaluation.reading_of_not_mem hnot, ?_⟩
  · rw [Evaluation.value?, Values.get?, hentries]
    rfl
  · rw [Evaluation.value?, Values.get?, hentries]
    rfl

end Evaluator
end ItemMetrics
