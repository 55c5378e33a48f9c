import Mathlib.Data.List.Perm.Basic
import ItemMetrics.Proofs.Evaluator.Outcome
import ItemMetrics.Proofs.Metric.Reading

/-! # The order of declaration

Declaring the metrics of a type in another order changes nothing but the order of the entries, as
long as each metric keeps the metrics it refers to on the same side (`Evaluator.evaluate_perm`). A
trail put into the other order is a trail again (`Evaluator.Trail.perm`): a metric reads only what
it refers to, and of that the same values stand before it. -/

namespace ItemMetrics

/-- A metric with the key `k` is declared before the metric `m`. -/
def Precedes (ms : List Metric) (k : String) (m : Metric) : Prop :=
  ∃ before after, ms = before ++ m :: after ∧ k ∈ before.map (·.key.text)

theorem precedes_iff {before after : List Metric} {m : Metric} {k : String}
    (h : ((before ++ m :: after).map (·.key.text)).Nodup) :
    Precedes (before ++ m :: after) k m ↔ k ∈ before.map (·.key.text) := by
  refine ⟨?_, fun hk => ⟨before, after, rfl, hk⟩⟩
  rintro ⟨before', after', heq, hk⟩
  have hm : m ∉ before ∧ m ∉ after := by
    have hnodup := List.Nodup.of_map _ h
    rw [List.nodup_append, List.nodup_cons] at hnodup
    exact ⟨fun hm => hnodup.2.2 m hm m List.mem_cons_self rfl, hnodup.2.1.1⟩
  obtain ⟨rfl, -, -⟩ := (List.append_cons_inj_of_notMem hm.1 hm.2).mp heq
  exact hk

namespace Evaluator

variable {ev ev' : Evaluator} {item : Json} {type : String} {d d' : TypeDefinition}
  {t t' before after before' after' : List (Metric × Computed)} {m : Metric} {c : Computed}
  {k : String}

/-- In a trail a metric comes after exactly the keys that are declared before it. -/
theorem exists_mem_iff_precedes (h : (t.map (·.1.key.text)).Nodup)
    (ht : t = before ++ (m, c) :: after) :
    (∃ s ∈ before, s.1.key.text = k) ↔ Precedes (t.map Prod.fst) k m := by
  subst ht
  rw [List.map_append, List.map_cons, precedes_iff]
  · simp
  · simpa [Function.comp_def] using h

/-- Before a metric the same value is found in either order under a key that stands on the same side
of the metric in both. -/
theorem get?_valuesOf_of_perm (hnodup : (t.map (·.1.key.text)).Nodup) (hperm : t'.Perm t)
    (ht : t = before ++ (m, c) :: after) (ht' : t' = before' ++ (m, c) :: after')
    (hk : Precedes (t.map Prod.fst) k m ↔ Precedes (t'.map Prod.fst) k m) :
    (valuesOf before).get? k = (valuesOf before').get? k := by
  have hnodup' : (t'.map (·.1.key.text)).Nodup := (hperm.map _).nodup_iff.mpr hnodup
  have hsub : before.Sublist t := ht ▸ List.sublist_append_left _ _
  have hsub' : before'.Sublist t' := ht' ▸ List.sublist_append_left _ _
  have hside : (∃ s ∈ before, s.1.key.text = k) ↔ ∃ s ∈ before', s.1.key.text = k := by
    rw [exists_mem_iff_precedes hnodup ht, exists_mem_iff_precedes hnodup' ht', hk]
  have hunique {s s' : Metric × Computed} (hs : s ∈ t) (hs' : s' ∈ t)
      (hkey : s.1.key.text = k) (hkey' : s'.1.key.text = k) : s = s' :=
    List.inj_on_of_nodup_map hnodup hs hs' (hkey.trans hkey'.symm)
  ext v
  rw [get?_valuesOf (hnodup.sublist (hsub.map _)), get?_valuesOf (hnodup'.sublist (hsub'.map _))]
  constructor
  · rintro ⟨m₁, c₁, hmem, hkey, rfl⟩
    obtain ⟨s, hs, hskey⟩ := hside.mp ⟨(m₁, c₁), hmem, hkey⟩
    cases hunique (hsub.subset hmem) (hperm.mem_iff.mp (hsub'.subset hs)) hkey hskey
    exact ⟨m₁, c₁, hs, hkey, rfl⟩
  · rintro ⟨m₁, c₁, hmem, hkey, rfl⟩
    obtain ⟨s, hs, hskey⟩ := hside.mpr ⟨(m₁, c₁), hmem, hkey⟩
    cases hunique (hperm.mem_iff.mp (hsub'.subset hmem)) (hsub.subset hs) hkey hskey
    exact ⟨m₁, c₁, hs, hkey, rfl⟩

/-- A trail in another order is a trail, unless a reference changes sides. -/
theorem Trail.perm (h : Trail item t) (hnodup : (t.map (·.1.key.text)).Nodup) (hperm : t'.Perm t)
    (horder : ∀ m ∈ t.map Prod.fst, ∀ k, m.RefersTo k →
      (Precedes (t.map Prod.fst) k m ↔ Precedes (t'.map Prod.fst) k m)) :
    Trail item t' := by
  intro before' m c after' ht'
  have hmem : (m, c) ∈ t := hperm.mem_iff.mp (ht' ▸ List.mem_append_right _ List.mem_cons_self)
  obtain ⟨before, after, ht⟩ := List.append_of_mem hmem
  -- the item is the same, so only the values that `m` refers to have to be compared
  rw [← h before m c after ht]
  refine Metric.compute_congr (fun _ _ => rfl) fun k hk => ?_
  exact (get?_valuesOf_of_perm hnodup hperm ht ht' (horder m (List.mem_map_of_mem hmem) k hk)).symm

/-- A success under one order is a success under another that keeps every reference on its side. -/
theorem outcome_perm {e : Evaluation} (h : ev.outcome item = .ok e) (htype : HasType item type)
    (hregistry : ev.registry.contains type = ev'.registry.contains type)
    (hd : ev.definitions.find? type = some d) (hd' : ev'.definitions.find? type = some d')
    (hperm : d'.metrics.Perm d.metrics)
    (horder : ∀ m ∈ d.metrics, ∀ k, m.RefersTo k →
      (Precedes d.metrics k m ↔ Precedes d'.metrics k m)) :
    ∃ e', ev'.outcome item = .ok e' ∧ e'.type = e.type ∧
      e'.values.entries.Perm e.values.entries ∧ e'.provenance.Perm e.provenance := by
  obtain ⟨d₀, t, hd₀, ht, htrail, hvalues, hprovenance⟩ := outcome_eq_ok_iff.mp h
  obtain ⟨hetype, hcontains, hfind⟩ := definitionOf_eq_ok_iff.mp hd₀
  cases hetype.unique htype
  cases hd.symm.trans hfind
  have hnodup := nodup_of_map_fst ht
  obtain ⟨t', ht', htperm⟩ := exists_perm_of_map (f := Prod.fst) (ht ▸ hperm)
  have htrail' : Trail item t' := htrail.perm hnodup htperm (by rwa [ht, ht'])
  refine ⟨⟨e.type, valuesOf t', provenanceOf t'⟩,
    outcome_eq_ok_iff.mpr ⟨d', t', ?_, ht', htrail', rfl, rfl⟩, rfl, ?_, ?_⟩
  · exact definitionOf_eq_ok_iff.mpr ⟨hetype, hregistry ▸ hcontains, hd'⟩
  · rw [hvalues, entries_valuesOf hnodup, entries_valuesOf (nodup_of_map_fst ht')]
    exact htperm.map _
  · rw [hprovenance]
    exact htperm.map _

/-- **Declaration order matters only through references.** -/
theorem evaluate_perm (htype : HasType item type)
    (hregistry : ev.registry.contains type = ev'.registry.contains type)
    (hd : ev.definitions.find? type = some d) (hd' : ev'.definitions.find? type = some d')
    (hperm : d'.metrics.Perm d.metrics)
    (horder : ∀ m ∈ d.metrics, ∀ k, m.RefersTo k →
      (Precedes d.metrics k m ↔ Precedes d'.metrics k m))
    (log log' : Log) :
    ((∃ e, ((ev.evaluate item).on log).1 = .ok e) ↔
      ∃ e', ((ev'.evaluate item).on log').1 = .ok e') ∧
    ∀ e e', ((ev.evaluate item).on log).1 = .ok e → ((ev'.evaluate item).on log').1 = .ok e' →
      e'.type = e.type ∧ e'.values.entries.Perm e.values.entries ∧
        e'.provenance.Perm e.provenance ∧
        ∀ k, e'.value? k = e.value? k ∧ e'.sources? k = e.sources? k := by
  simp only [fst_on_evaluate]
  refine ⟨⟨?_, ?_⟩, ?_⟩
  · rintro ⟨e, he⟩
    obtain ⟨e', he', -⟩ := outcome_perm he htype hregistry hd hd' hperm horder
    exact ⟨e', he'⟩
  · rintro ⟨e', he'⟩
    have horder' : ∀ m ∈ d'.metrics, ∀ k, m.RefersTo k →
        (Precedes d'.metrics k m ↔ Precedes d.metrics k m) := fun m hm k hk =>
      (horder m (hperm.mem_iff.mp hm) k hk).symm
    obtain ⟨e, he, -⟩ := outcome_perm he' htype hregistry.symm hd' hd hperm.symm horder'
    exact ⟨e, he⟩
  · intro e e' he he'
    obtain ⟨e₁, he₁, htype₁, hvalues, hprovenance⟩ :=
      outcome_perm he htype hregistry hd hd' hperm horder
    cases he'.symm.trans he₁
    refine ⟨htype₁, hvalues, hprovenance, fun k => ⟨?_, ?_⟩⟩
    · exact lookup_eq_of_perm e.values.nodup hvalues k
    · exact lookup_eq_of_perm (nodup_keys_provenance he) hprovenance k

open Sample

theorem evaluate_perm_sample :
    ∃ e, (((evaluator swapped).evaluate (task "x" ["a"])).on .disabled).1 = .ok e ∧
      e.value? "share" = some (.float 1) := by
  have hrefs : ∀ m ∈ definition.metrics, ∀ k, m.RefersTo k →
      m = share ∧ k ∈ [total, tagged].map (·.key.text) := by
    intro m hm k hk
    have hm := mem_metrics_definition hm
    obtain hd | ⟨hkey, hk⟩ := hk
    · rcases hm with rfl | rfl | rfl <;> simp_all [total, tagged, share]
    · simp only [List.mem_cons, List.not_mem_nil, or_false] at hkey
      rcases hkey with rfl | rfl | rfl <;> rcases hm with rfl | rfl | rfl <;> cases hk
      · exact ⟨rfl, by decide⟩
      · exact ⟨rfl, by decide⟩
  have horder : ∀ m ∈ definition.metrics, ∀ k, m.RefersTo k →
      (Precedes definition.metrics k m ↔ Precedes swapped.metrics k m) := by
    intro m hm k hk
    obtain ⟨rfl, hkey⟩ := hrefs m hm k hk
    refine iff_of_true ⟨[total, tagged], [], rfl, hkey⟩ ⟨[tagged, total], [], rfl, ?_⟩
    exact ((List.Perm.swap _ _ _).map _).mem_iff.mp hkey
  obtain ⟨e, he, hshare⟩ := evaluate_definition
  have hregistry : (evaluator definition).registry.contains "task" =
    (evaluator swapped).registry.contains "task" := rfl
  have h := evaluate_perm (hasType_task "x" ["a"]) hregistry (find?_definitions_evaluator rfl)
    (find?_definitions_evaluator rfl) (.swap _ _ _) horder .disabled .disabled
  obtain ⟨e', he'⟩ := h.1.mp ⟨e, he⟩
  obtain ⟨-, -, -, hvalue⟩ := h.2 e e' he he'
  exact ⟨e', he', (hvalue "share").1.trans hshare⟩

end Evaluator
end ItemMetrics
