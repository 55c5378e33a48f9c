import ItemMetrics.Proofs.Metric.Entry

/-! # Definition documents

A document is a definition exactly when it is well-formed: its type is named, its metrics are a list
of well-formed entries, and no two of them have one key. It is read entry by entry, and the first
entry that offends is the failure (`TypeDefinition.ofJson_iff_wellFormed`). -/

namespace ItemMetrics

namespace Metric

/-- Two entries spell the same key. -/
def SameKey (a b : Json) : Prop :=
  ∃ l, a.HoldsLabel "key" l ∧ b.HoldsLabel "key" l

/-- Why an entry is refused that stands at a position behind others, which have taken some keys. An
entry that repeats a key has no other fault. -/
inductive Offends (type source : String) (position : Nat) (taken : Label → Prop) (entry : Json) :
    DefinitionError → Prop
  | notMapping : entry.isObject = false →
    Offends type source position taken entry (.entryNotMapping position type source)
  | malformed {e : DefinitionError} : entry.isObject = true →
    Fault entry s!"metric entry #{position} of type '{type}'" source e →
    Offends type source position taken entry e
  | duplicate {l : Label} : WellFormed entry → entry.HoldsLabel "key" l → taken l →
    Offends type source position taken entry (.duplicateMetric l.text type source)

variable {entry : Json} {entries : List Json} {m : Metric} {ms : List Metric} {l : Label}
  {type source : String} {position : Nat} {taken taken' : Label → Prop} {e : DefinitionError}

theorem Offends.congr (h : ∀ l, taken l ↔ taken' l)
    (he : Offends type source position taken entry e) :
    Offends type source position taken' entry e := by
  cases he with
  | notMapping hobject => exact .notMapping hobject
  | malformed hobject hfault => exact .malformed hobject hfault
  | duplicate hentry hl htaken => exact .duplicate hentry hl ((h _).mp htaken)

/-- The keys of the metrics that entries declare are the keys that the entries spell. -/
theorem mem_map_key_iff (h : List.Forall₂ Declared entries ms) :
    l ∈ ms.map key ↔ ∃ entry ∈ entries, entry.HoldsLabel "key" l := by
  induction h with
  | nil => simp
  | @cons entry m entries ms hm _ ih =>
    have hkey : l = m.key ↔ entry.HoldsLabel "key" l := by
      refine ⟨fun hl => hl ▸ hm.key, fun hl => hl.unique hm.key⟩
    rw [List.map_cons, List.mem_cons, ih, hkey]
    simp

theorem nodup_map_key_iff (h : List.Forall₂ Declared entries ms) :
    (ms.map key).Nodup ↔ entries.Pairwise fun a b => ¬ SameKey a b := by
  induction h with
  | nil => simp
  | @cons entry m entries ms hm hms ih =>
    rw [List.map_cons, List.nodup_cons, List.pairwise_cons, ih, mem_map_key_iff hms]
    refine and_congr_left fun _ => ⟨fun h b hb hsame => ?_, ?_⟩
    · obtain ⟨l, hl, hlb⟩ := hsame
      exact h ⟨b, hb, hl.unique hm.key ▸ hlb⟩
    · rintro h ⟨b, hb, hlb⟩
      exact h b hb ⟨m.key, hm.key, hlb⟩

theorem forall_wellFormed_iff :
    (∀ entry ∈ entries, WellFormed entry) ↔ ∃ ms, List.Forall₂ Declared entries ms := by
  rw [exists_forall₂_iff]
  exact forall₂_congr fun _ _ => wellFormed_iff

end Metric

namespace TypeDefinition

open ItemMetrics.Metric

/-- What a document has to look like. -/
structure WellFormed (payload : Json) : Prop where
  isObject : payload.isObject = true
  type : payload.HoldsName "type"
  metrics : ∃ entries, payload.get? "metrics" = some (.array entries) ∧
    (∀ entry ∈ entries, Metric.WellFormed entry) ∧ entries.Pairwise fun a b => ¬ SameKey a b

/-- The definition in a document: each entry declares the metric in its place. -/
structure Declared (payload : Json) (d : TypeDefinition) : Prop where
  type : payload.HoldsLabel "type" d.type
  metrics : ∃ entries, payload.get? "metrics" = some (.array entries) ∧
    List.Forall₂ Metric.Declared entries d.metrics

/-- Why a document is no definition. Of several entries that offend the first one counts. -/
inductive Rejected (payload : Json) (source : String) : DefinitionError → Prop
  | type : ¬ payload.HoldsName "type" →
    Rejected payload source (.field (.notText "type" s!"derived definition in {source}"))
  | metrics {l : Label} : payload.HoldsLabel "type" l →
    (∀ entries, payload.get? "metrics" ≠ some (.array entries)) →
    Rejected payload source (.metricsNotList l.text source)
  | entry {l : Label} {before after : List Json} {entry : Json} {e : DefinitionError} :
    payload.HoldsLabel "type" l →
    payload.get? "metrics" = some (.array (before ++ entry :: after)) →
    (∀ b ∈ before, Metric.WellFormed b) → (before.Pairwise fun a b => ¬ SameKey a b) →
    Offends l.text source (before.length + 1) (fun k => ∃ b ∈ before, b.HoldsLabel "key" k) entry e →
    Rejected payload source e

variable {payload entry : Json} {entries : List Json} {m : Metric} {ms : List Metric}
  {d : TypeDefinition} {type : Label} {source : String} {position : Nat} {seen : List Label}
  {e : DefinitionError}

/-! ## One entry -/

theorem readEntries_of_declared (h : Metric.Declared entry m) :
    readEntries type source position seen (entry :: entries) =
      if m.key ∈ seen then .error (.duplicateMetric m.key.text type.text source)
      else (readEntries type source (position + 1) (m.key :: seen) entries).map (m :: ·) := by
  rw [readEntries, if_pos h.isObject, ofEntry, parse_eq_ok_iff.mpr h, Except.ok_bind]
  split
  · rfl
  · cases readEntries type source (position + 1) (m.key :: seen) entries <;> rfl

theorem readEntries_of_fault (hobject : entry.isObject = true)
    (h : Fault entry s!"metric entry #{position} of type '{type.text}'" source e) :
    readEntries type source position seen (entry :: entries) = .error e := by
  rw [readEntries, if_pos hobject, ofEntry, parse_eq_error_iff.mpr h, Except.error_bind]

/-- Reading stops at the first entry if that one offends, and goes on with the others if not. -/
theorem readEntries_cons_eq_error_iff :
    readEntries type source position seen (entry :: entries) = .error e ↔
      Offends type.text source position (· ∈ seen) entry e ∨
        ∃ m, Metric.Declared entry m ∧ m.key ∉ seen ∧
          readEntries type source (position + 1) (m.key :: seen) entries = .error e := by
  constructor
  · intro h
    by_cases hobject : entry.isObject = true
    · cases hentry : ofEntry entry type.text position source with
      | error e' =>
        have hfault := parse_eq_error_iff.mp hentry
        cases (readEntries_of_fault hobject hfault).symm.trans h
        exact .inl (.malformed hobject hfault)
      | ok m =>
        have hm := parse_eq_ok_iff.mp hentry
        rw [readEntries_of_declared hm] at h
        split at h
        · next hseen =>
          cases h
          exact .inl (.duplicate (wellFormed_iff.mpr ⟨m, hm⟩) hm.key hseen)
        · next hseen => exact .inr ⟨m, hm, hseen, Except.map_eq_error_iff.mp h⟩
    · rw [readEntries, if_neg hobject] at h
      cases h
      exact .inl (.notMapping (by simpa using hobject))
  · rintro (hoffends | ⟨m, hm, hseen, h⟩)
    · cases hoffends with
      | notMapping hobject => rw [readEntries, if_neg (by simp [hobject])]
      | malformed hobject hfault => exact readEntries_of_fault hobject hfault
      | duplicate hentry hl hseen =>
        obtain ⟨m, hm⟩ := wellFormed_iff.mp hentry
        cases hl.unique hm.key
        rw [readEntries_of_declared hm, if_pos hseen]
    · rw [readEntries_of_declared hm, if_neg hseen, h]
      rfl

theorem readEntries_cons_eq_ok_iff :
    readEntries type source position seen (entry :: entries) = .ok ms ↔
      ∃ m ms', ms = m :: ms' ∧ Metric.Declared entry m ∧ m.key ∉ seen ∧
        readEntries type source (position + 1) (m.key :: seen) entries = .ok ms' := by
  constructor
  · intro h
    have hread := h
    rw [readEntries] at hread
    split at hread
    · obtain ⟨m, hentry, -⟩ := Except.bind_eq_ok_iff.mp hread
      have hm := parse_eq_ok_iff.mp hentry
      rw [readEntries_of_declared hm] at h
      split at h
      · cases h
      · next hseen =>
        obtain ⟨ms', hms', rfl⟩ := Except.map_eq_ok_iff.mp h
        exact ⟨m, ms', rfl, hm, hseen, hms'⟩
    · cases hread
  · rintro ⟨m, ms', rfl, hm, hseen, h⟩
    rw [readEntries_of_declared hm, if_neg hseen, h]
    rfl

/-! ## All entries -/

theorem readEntries_eq_ok_iff :
    readEntries type source position seen entries = .ok ms ↔
      List.Forall₂ Metric.Declared entries ms ∧ (ms.map key).Nodup ∧ ∀ k ∈ ms.map key, k ∉ seen := by
  induction entries generalizing position seen ms with
  | nil =>
    constructor
    · intro h
      cases h
      exact ⟨.nil, by simp⟩
    · rintro ⟨h, -⟩
      cases h
      rfl
  | cons entry entries ih =>
    simp only [readEntries_cons_eq_ok_iff, ih]
    constructor
    · rintro ⟨m, ms', rfl, hm, hseen, hms, hnodup, hfresh⟩
      refine ⟨.cons hm hms, ?_, ?_⟩
      · exact List.nodup_cons.mpr ⟨fun hmem => hfresh _ hmem List.mem_cons_self, hnodup⟩
      · refine List.forall_mem_cons.mpr ⟨hseen, fun k hk hks => ?_⟩
        exact hfresh k hk (List.mem_cons_of_mem _ hks)
    · rintro ⟨h, hnodup, hfresh⟩
      cases h with
      | @cons _ m _ ms' hm hms =>
        obtain ⟨hnew, hnodup⟩ := List.nodup_cons.mp hnodup
        obtain ⟨hseen, hfresh⟩ := List.forall_mem_cons.mp hfresh
        refine ⟨m, ms', rfl, hm, hseen, hms, hnodup, fun k hk hks => ?_⟩
        rcases List.mem_cons.mp hks with rfl | hks
        · exact hnew hk
        · exact hfresh k hk hks

/-- Reading fails as the first entry that offends, behind others that do not. -/
theorem readEntries_eq_error_iff :
    readEntries type source position seen entries = .error e ↔
      ∃ before entry after ms, entries = before ++ entry :: after ∧
        readEntries type source position seen before = .ok ms ∧
        Offends type.text source (position + before.length)
          (fun k => k ∈ seen ∨ k ∈ ms.map key) entry e := by
  induction entries generalizing position seen with
  | nil =>
    constructor
    · rintro ⟨⟩
    · rintro ⟨before, entry, after, ms, h, -⟩
      simp at h
  | cons entry entries ih =>
    have hposition (before : List Json) :
        position + (entry :: before).length = position + 1 + before.length := by
      rw [List.length_cons]
      omega
    have htaken (m : Metric) (ms : List Metric) (k : Label) :
        k ∈ m.key :: seen ∨ k ∈ ms.map key ↔ k ∈ seen ∨ k ∈ (m :: ms).map key := by
      simp only [List.mem_cons, List.map_cons]
      tauto
    rw [readEntries_cons_eq_error_iff]
    simp only [ih]
    constructor
    · rintro (hoffends | ⟨m, hm, hseen, before, entry', after, ms, rfl, hbefore, hoffends⟩)
      · exact ⟨[], entry, entries, [], rfl, rfl, hoffends.congr (by simp)⟩
      · refine ⟨entry :: before, entry', after, m :: ms, rfl,
          readEntries_cons_eq_ok_iff.mpr ⟨m, ms, rfl, hm, hseen, hbefore⟩, ?_⟩
        rw [hposition]
        exact hoffends.congr (htaken m ms)
    · rintro ⟨before, entry', after, ms, heq, hbefore, hoffends⟩
      cases before with
      | nil =>
        cases heq
        cases hbefore
        exact .inl (hoffends.congr (by simp))
      | cons b before =>
        cases heq
        obtain ⟨m, ms', rfl, hm, hseen, hrest⟩ := readEntries_cons_eq_ok_iff.mp hbefore
        rw [hposition] at hoffends
        exact .inr ⟨m, hm, hseen, before, entry', after, ms', rfl, hrest,
          hoffends.congr fun k => (htaken m ms' k).symm⟩

/-! ## The document -/

theorem ofJson_eq_ok_iff_declared : ofJson payload source = .ok d ↔ Declared payload d := by
  simp only [ofJson_eq_ok_iff, Json.bind_label?_get?_eq_some_iff, Json.bind_array?_eq_some_iff,
    readEntries_eq_ok_iff]
  constructor
  · rintro ⟨htype, entries, hentries, hms, -⟩
    exact ⟨htype, entries, hentries, hms⟩
  · rintro ⟨htype, entries, hentries, hms⟩
    exact ⟨htype, entries, hentries, hms, d.nodup, by simp⟩

/-- A document is well-formed when there is a definition in it. -/
theorem wellFormed_iff : WellFormed payload ↔ ∃ d, Declared payload d := by
  constructor
  · rintro ⟨-, htype, entries, hentries, hall, hdistinct⟩
    obtain ⟨type, htype⟩ := Json.holdsName_iff.mp htype
    obtain ⟨ms, hms⟩ := forall_wellFormed_iff.mp hall
    exact ⟨⟨type, ms, (nodup_map_key_iff hms).mpr hdistinct⟩, htype, entries, hentries, hms⟩
  · rintro ⟨d, htype, entries, hentries, hms⟩
    exact ⟨htype.isObject, Json.holdsName_iff.mpr ⟨_, htype⟩, entries, hentries,
      forall_wellFormed_iff.mpr ⟨_, hms⟩, (nodup_map_key_iff hms).mp d.nodup⟩

/-- A document fails on its type, on its list of metrics, or on the entries in that list. -/
theorem ofJson_eq_error_iff :
    ofJson payload source = .error e ↔
      (¬ payload.HoldsName "type" ∧
        e = .field (.notText "type" s!"derived definition in {source}")) ∨
      ∃ type, payload.HoldsLabel "type" type ∧
        ((∀ entries, payload.get? "metrics" ≠ some (.array entries)) ∧
            e = .metricsNotList type.text source ∨
          ∃ entries, payload.get? "metrics" = some (.array entries) ∧
            readEntries type source 1 [] entries = .error e) := by
  simp only [ofJson, Except.bind_eq_error_iff, Except.mapError_eq_error_iff,
    Except.mapError_eq_ok_iff, Json.requireLabel_eq_ok_iff, Json.bind_label?_get?_eq_some_iff,
    Json.requireLabel_eq_error_iff]
  refine or_congr ?_ (exists_congr fun type => and_congr_right fun _ => ?_)
  · constructor
    · rintro ⟨_, ⟨htype, rfl⟩, rfl⟩
      exact ⟨htype, rfl⟩
    · rintro ⟨htype, rfl⟩
      exact ⟨_, ⟨htype, rfl⟩, rfl⟩
  · split
    · next hnone =>
      have hno (entries : List Json) : payload.get? "metrics" ≠ some (.array entries) := by
        intro hentries
        cases hnone.symm.trans (Json.bind_array?_eq_some_iff.mpr hentries)
      simp only [hno, false_and, exists_false, or_false, implies_true, ne_eq, not_false_eq_true,
        true_and, Except.error.injEq, eq_comm]
    · next entries hsome =>
      rw [Json.bind_array?_eq_some_iff] at hsome
      simp only [hsome, ne_eq, Option.some.injEq, Json.array.injEq, forall_eq', false_and, false_or,
        exists_eq_left']
      split
      · next h => simp [h, pure, Except.pure]
      · next h => simp [h]

theorem ofJson_eq_error_iff_rejected :
    ofJson payload source = .error e ↔ Rejected payload source e := by
  rw [ofJson_eq_error_iff]
  constructor
  · rintro (⟨htype, rfl⟩ | ⟨type, htype, ⟨hmetrics, rfl⟩ | ⟨entries, hentries, h⟩⟩)
    · exact .type htype
    · exact .metrics htype hmetrics
    · obtain ⟨before, entry, after, ms, rfl, hbefore, hoffends⟩ := readEntries_eq_error_iff.mp h
      obtain ⟨hms, hnodup, -⟩ := readEntries_eq_ok_iff.mp hbefore
      refine .entry htype hentries (forall_wellFormed_iff.mpr ⟨ms, hms⟩)
        ((nodup_map_key_iff hms).mp hnodup) ?_
      rw [Nat.add_comm] at hoffends
      exact hoffends.congr fun k => by simp [mem_map_key_iff hms]
  · intro h
    cases h with
    | type htype => exact .inl ⟨htype, rfl⟩
    | metrics htype hmetrics => exact .inr ⟨_, htype, .inl ⟨hmetrics, rfl⟩⟩
    | @entry type before after entry e htype hentries hall hdistinct hoffends =>
      obtain ⟨ms, hms⟩ := forall_wellFormed_iff.mp hall
      have hbefore : readEntries type source 1 [] before = .ok ms :=
        readEntries_eq_ok_iff.mpr ⟨hms, (nodup_map_key_iff hms).mpr hdistinct, by simp⟩
      refine .inr ⟨type, htype, .inr ⟨_, hentries, readEntries_eq_error_iff.mpr
        ⟨before, entry, after, ms, rfl, hbefore, ?_⟩⟩⟩
      rw [Nat.add_comm]
      exact hoffends.congr fun k => by simp [mem_map_key_iff hms]

theorem metric?_key {d : TypeDefinition} (h : m ∈ d.metrics) : d.metric? m.key.text = some m :=
  (find?_key_eq_some_iff d.nodup_keys).mpr ⟨h, rfl⟩

/-- **A document is accepted exactly when it is well-formed.** What is read has the metrics that the
entries declare, in their order, and finds each of them under its key. Any other document is refused,
and if that is for its entries, for the first that offends. -/
theorem ofJson_iff_wellFormed (payload : Json) (source : String) :
    ((∃ d, ofJson payload source = .ok d) ↔ WellFormed payload) ∧
    (∀ d, ofJson payload source = .ok d ↔ Declared payload d) ∧
    (∀ d, ofJson payload source = .ok d → ∀ m ∈ d.metrics, d.metric? m.key.text = some m) ∧
    ∀ e, ofJson payload source = .error e ↔ Rejected payload source e := by
  refine ⟨?_, fun d => ofJson_eq_ok_iff_declared, fun d _ m hm => metric?_key hm,
    fun e => ofJson_eq_error_iff_rejected⟩
  simp only [ofJson_eq_ok_iff_declared, wellFormed_iff]

end TypeDefinition

namespace Sample

/-- An entry without a configuration. -/
def entry (key : String) (dependsOn : List String) : Json :=
  .object
    [("config", .null), ("depends_on", .strings dependsOn), ("description", .string "Tags "),
      ("key", .string key), ("operation", .string "length")]

def document (entries : List Json) : Json :=
  .object [("metrics", .array entries), ("type", .string " task\n")]

end Sample

namespace TypeDefinition

open Sample

theorem ofJson_iff_wellFormed_sample :
    ∃ d m, ofJson (document [entry " total" ["a", " b", "a "]]) "task.yaml" = .ok d ∧
      d.metric? "total" = some m ∧ m.dependsOn.map Label.text = ["a", "b"] ∧
      WellFormed (document [entry " total" ["a", " b", "a "]]) ∧
      Rejected (document [entry " total" [], entry "total " []]) "task.yaml"
        (.duplicateMetric "total" "task" "task.yaml") := by
  have hread : (ofJson (document [entry " total" ["a", " b", "a "]]) "task.yaml").map
      (·.metrics.map fun m => (m.key.text, m.dependsOn.map Label.text)) =
        .ok [("total", ["a", "b"])] := by
    decide +kernel
  have hrepeated : (ofJson (document [entry " total" [], entry "total " []]) "task.yaml").map
      (fun _ => ()) = .error (.duplicateMetric "total" "task" "task.yaml") := by
    decide +kernel
  obtain ⟨d, hd, hmetrics⟩ := Except.map_eq_ok_iff.mp hread
  obtain ⟨m, hm, hentry⟩ := List.map_eq_singleton_iff.mp hmetrics
  obtain ⟨hkey, hdependsOn⟩ := Prod.mk.inj hentry
  obtain ⟨haccepted, -, hlookup, -⟩ :=
    ofJson_iff_wellFormed (document [entry " total" ["a", " b", "a "]]) "task.yaml"
  have hfound := hlookup d hd m (hm ▸ List.mem_singleton_self m)
  rw [hkey] at hfound
  exact ⟨d, m, hd, hfound, hdependsOn, haccepted.mp ⟨d, hd⟩,
    ((ofJson_iff_wellFormed _ _).2.2.2 _).mp (Except.map_eq_error_iff.mp hrepeated)⟩

end TypeDefinition
end ItemMetrics
