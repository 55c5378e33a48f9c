import ItemMetrics.Proofs.Metric.Conversion
import ItemMetrics.Proofs.Metric.Values

/-! # Values that are inserted one after the other

An insertion leaves the keys as they are or adds its own at their end (`Values.keys_insert`), and it
changes the look-up of no other key (`Values.get?_insert`). So, after any insertions, the keys are
those that were inserted in the order in which each came first, and each has the value that came with
it last (`Values.ofList_records`). -/

namespace ItemMetrics

namespace Values

variable {vs : Values} {inserts : List (String × Scalar)} {k l : String} {v w : Scalar}

/-! ## One insertion -/

/-- A key that is there keeps its place, and a new one is the last. -/
theorem keys_insert : (vs.insert k v).keys = if k ∈ vs.keys then vs.keys else vs.keys ++ [k] := by
  split
  · next h => exact Entries.map_fst_set_of_mem h
  · next h => rw [keys, entries_insert_of_not_mem h, List.map_append]; rfl

/-- The value that is inserted is found under its key, and nothing else is changed. -/
theorem get?_insert : (vs.insert k v).get? l = if l = k then some v else vs.get? l :=
  Entries.lookup_set vs.entries

/-! ## A sequence of insertions -/

/-- The last insertion of a key came with a value. -/
def InsertedLast (inserts : List (String × Scalar)) (k : String) (v : Scalar) : Prop :=
  ∃ before after, inserts = before ++ (k, v) :: after ∧ k ∉ after.map Prod.fst

theorem insertedLast_iff : InsertedLast inserts k v ↔ inserts.reverse.lookup k = some v := by
  rw [List.lookup_eq_some_iff]
  constructor
  · rintro ⟨before, after, rfl, hafter⟩
    refine ⟨after.reverse, before.reverse, by simp, fun e he => ?_⟩
    exact bne_iff_ne.mpr fun hk => hafter (hk ▸ List.mem_map_of_mem (List.mem_reverse.mp he))
  · rintro ⟨after, before, heq, hafter⟩
    refine ⟨before.reverse, after.reverse, ?_, fun hk => ?_⟩
    · rw [← List.reverse_reverse inserts, heq]
      simp
    · obtain ⟨e, he, rfl⟩ := List.mem_map.mp hk
      exact bne_iff_ne.mp (hafter e (List.mem_reverse.mp he)) rfl

theorem get?_ofList (inserts : List (String × Scalar)) (k : String) :
    (ofList inserts).get? k = inserts.reverse.lookup k := by
  -- from the right, where the values are inserted
  induction inserts using List.reverseRecOn with
  | nil => rfl
  | append_singleton inserts e ih =>
    rw [ofList_append_singleton, get?_insert, ih, List.reverse_append, List.reverse_singleton,
      List.singleton_append, lookup_cons_eq_ite]

theorem firstOccurrences_keys_ofList (inserts : List (String × Scalar)) :
    FirstOccurrences (inserts.map Prod.fst) (ofList inserts).keys := by
  induction inserts using List.reverseRecOn with
  | nil => exact .nil
  | append_singleton inserts e ih =>
    rw [ofList_append_singleton, keys_insert, List.map_append, List.map_singleton]
    split
    · next h => exact .again ih (ih.mem_iff.mp h)
    · next h => exact .new ih (mt ih.mem_iff.mpr h)

theorem compactMembers_eq_map (ms : Json.Members) :
    Json.compactMembers ms = ms.map fun m => Json.quote m.1 ++ ":" ++ m.2.compact := by
  induction ms with
  | nil => rfl
  | cons m ms ih => rw [Json.compactMembers, ih, List.map_cons]

/-- What values hold, and how they are written, after a sequence of insertions. -/
structure Records (inserts : List (String × Scalar)) (vs : Values) : Prop where
  distinct : vs.keys.Nodup
  keys : FirstOccurrences (inserts.map Prod.fst) vs.keys
  size : vs.size = vs.keys.length
  contains : ∀ k, vs.contains k = true ↔ k ∈ inserts.map Prod.fst
  present : ∀ k v, vs.get? k = some v ↔ InsertedLast inserts k v
  absent : ∀ k, vs.get? k = none ↔ k ∉ inserts.map Prod.fst
  entries : List.Forall₂ (fun k e => e.1 = k ∧ InsertedLast inserts k e.2) vs.keys vs.entries
  members : vs.toJson = .object (vs.entries.map fun e => (e.1, e.2.toJson))
  written : vs.toJson.compact =
    "\x7b" ++ ",".intercalate (vs.entries.map fun e => Json.quote e.1 ++ ":" ++ e.2.write) ++ "\x7d"

/-- **Insertions in order.** After any insertions the keys are those that were inserted, each once
and in the order in which they came first. The value of a key is the one that came with it last, where
the values are gone through and where they are written as well. -/
theorem ofList_records (inserts : List (String × Scalar)) : Records inserts (ofList inserts) := by
  have hkeys := firstOccurrences_keys_ofList inserts
  have hget (k : String) (v : Scalar) :
      (ofList inserts).get? k = some v ↔ InsertedLast inserts k v := by
    rw [insertedLast_iff, get?_ofList]
  have hcontains (k : String) : (ofList inserts).contains k = true ↔ k ∈ inserts.map Prod.fst := by
    rw [contains_iff, hkeys.mem_iff]
  exact
    { distinct := (ofList inserts).nodup
      keys := hkeys
      size := by rw [size, Values.keys, List.length_map]
      contains := hcontains
      present := hget
      absent := fun k => by
        rw [← hcontains k, ← isSome_get?, Option.not_isSome_iff_eq_none]
      entries := by
        rw [Values.keys, List.forall₂_map_left_iff, List.forall₂_same]
        exact fun e he => ⟨rfl, (hget e.1 e.2).mp (get?_eq_some_iff.mpr he)⟩
      members := rfl
      written := by
        simp only [toJson, Json.compact, compactMembers_eq_map, List.map_map, Function.comp_def,
          Scalar.write_eq_compact] }

example : (ofList [("b", .integer 1), ("a", .integer 2), ("b", .integer 3)]).entries =
    [("b", .integer 3), ("a", .integer 2)] := by
  decide

end Values
end ItemMetrics
