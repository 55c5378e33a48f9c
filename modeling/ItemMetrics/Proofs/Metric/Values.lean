import ItemMetrics.Metric.Values
import ItemMetrics.Proofs.Keys

/-! # Looking up metric values

Look-ups and insertions as facts about the list of entries. Keys are distinct, so `get?` finds
exactly the entries (`get?_eq_some_iff`), and a value under a new key goes to the end
(`entries_insert_of_not_mem`). -/

namespace ItemMetrics

namespace Values

variable {vs : Values} {k : String} {v : Scalar}

theorem mem_keys_iff : k ∈ vs.keys ↔ ∃ v, (k, v) ∈ vs.entries := by
  simp [keys]

theorem contains_iff : vs.contains k = true ↔ k ∈ vs.keys := by
  simp [contains]

theorem get?_eq_some_iff : vs.get? k = some v ↔ (k, v) ∈ vs.entries :=
  lookup_eq_some_iff_mem vs.nodup

theorem isSome_get? : (vs.get? k).isSome = vs.contains k := by
  rw [Bool.eq_iff_iff, contains_iff, Option.isSome_iff_exists, mem_keys_iff]
  simp only [get?_eq_some_iff]

/-! ## Insertion -/

theorem entries_insert_of_not_mem (h : k ∉ vs.keys) :
    (vs.insert k v).entries = vs.entries ++ [(k, v)] :=
  Entries.set_of_not_mem h

theorem ofList_append_singleton (es : List (String × Scalar)) :
    ofList (es ++ [(k, v)]) = (ofList es).insert k v := by
  simp [ofList]

/-- A list with distinct keys is kept as it is. -/
theorem entries_ofList {es : List (String × Scalar)} (h : (es.map Prod.fst).Nodup) :
    (ofList es).entries = es := by
  suffices H : ∀ (vs : Values), (vs.keys ++ es.map Prod.fst).Nodup →
      (es.foldl (fun vs e => vs.insert e.1 e.2) vs).entries = vs.entries ++ es from H ∅ (by simpa)
  intro vs hvs
  induction es generalizing vs with
  | nil => simp
  | cons e es ih =>
    rw [List.map_cons, List.nodup_append, List.nodup_cons] at hvs
    obtain ⟨hkeys, ⟨hnot, hes⟩, hdisjoint⟩ := hvs
    have hfresh : e.1 ∉ vs.keys := fun hmem => hdisjoint e.1 hmem e.1 List.mem_cons_self rfl
    have hentries : (vs.insert e.1 e.2).entries = vs.entries ++ [e] :=
      entries_insert_of_not_mem hfresh
    rw [List.foldl_cons, ih hes, hentries, List.append_assoc, List.singleton_append]
    rw [keys, hentries, List.map_append, List.append_assoc, List.nodup_append]
    exact ⟨hkeys, List.nodup_cons.mpr ⟨hnot, hes⟩, hdisjoint⟩

/-- Among the first entries a key is found when it stands at one of their places. -/
theorem get?_ofList_take {i : Nat} :
    (ofList (vs.entries.take i)).get? k = some v ↔ ∃ j < i, vs.entries[j]? = some (k, v) := by
  have hnodup : ((vs.entries.take i).map Prod.fst).Nodup :=
    vs.nodup.sublist ((List.take_sublist i vs.entries).map _)
  rw [get?_eq_some_iff, entries_ofList hnodup, List.mem_iff_getElem?]
  simp only [List.getElem?_take, Option.ite_none_right_eq_some]

end Values
end ItemMetrics
