import ItemMetrics.Json.Basic
import ItemMetrics.Proofs.Keys

/-! # Members in the order of their keys

A member that is set or taken out is found so, and the others as before (`Json.Members.get?_insert`,
`get?_erase`). An object that is built from members has them in increasing order of their keys
(`Json.Members.pairwise_ofList`). Where no key occurs twice none of them is lost
(`Json.Members.perm_ofList`), so a look-up finds in the object what it finds in the list. -/

namespace ItemMetrics.Json.Members

variable {ms : Members} {k l : String} {v : Json}

/-! ## One member -/

theorem map_fst_insert (ms : Members) (k : String) (v : Json) :
    (ms.insert k v).map Prod.fst = insertKey k (ms.map Prod.fst) := by
  induction ms with
  | nil => rfl
  | cons m ms ih =>
    rw [insert, List.map_cons, insertKey]
    split
    · rfl
    · split
      · next h => rw [h]; rfl
      · rw [List.map_cons, ih]

theorem perm_insert (h : k ∉ ms.map Prod.fst) : (ms.insert k v).Perm ((k, v) :: ms) := by
  induction ms with
  | nil => exact .refl _
  | cons m ms ih =>
    obtain ⟨hne, hms⟩ := not_or.mp (mt List.mem_cons.mpr h)
    rw [insert, if_neg hne]
    split
    · exact .refl _
    · exact ((ih hms).cons m).trans (.swap (k, v) m ms)

theorem pairwise_insert (h : (ms.map Prod.fst).Pairwise (· < ·)) :
    ((ms.insert k v).map Prod.fst).Pairwise (· < ·) := by
  rw [map_fst_insert]
  exact pairwise_insertKey h

/-- What is set under a key is found there, and nothing else is changed. -/
theorem get?_insert (ms : Members) (k : String) (v : Json) (l : String) :
    (ms.insert k v).get? l = if l = k then some v else ms.get? l := by
  simp only [get?]
  induction ms with
  | nil => grind [insert]
  | cons m ms ih =>
    rw [insert]
    -- before the member, in its place, or behind it
    split
    · grind
    · split
      · grind
      · rw [List.lookup_cons, ih]
        grind

/-- An object without one of its members. -/
def erase (ms : Members) (key : String) : Members :=
  ms.filter (·.1 ≠ key)

theorem get?_erase (ms : Members) (k l : String) :
    (ms.erase k).get? l = if l = k then none else ms.get? l :=
  lookup_filter_ne ms k l

/-! ## A list of members -/

theorem ofList_append_singleton (ms : Members) (m : String × Json) :
    ofList (ms ++ [m]) = (ofList ms).insert m.1 m.2 := by
  rw [ofList, ofList, List.foldl_append, List.foldl_cons, List.foldl_nil]

theorem pairwise_ofList (ms : Members) : ((ofList ms).map Prod.fst).Pairwise (· < ·) := by
  -- from the right, where the list of members is taken into the object
  induction ms using List.reverseRecOn with
  | nil => exact .nil
  | append_singleton ms m ih =>
    rw [ofList_append_singleton]
    exact pairwise_insert ih

theorem perm_ofList (h : (ms.map Prod.fst).Nodup) : (ofList ms).Perm ms := by
  induction ms using List.reverseRecOn with
  | nil => exact .refl _
  | append_singleton ms m ih =>
    rw [List.map_append, List.map_singleton, List.nodup_append] at h
    obtain ⟨hms, -, hdisjoint⟩ := h
    have hperm := ih hms
    have hm : m.1 ∉ (ofList ms).map Prod.fst := by
      intro hmem
      exact hdisjoint m.1 ((hperm.map Prod.fst).mem_iff.mp hmem) m.1 (List.mem_singleton_self _) rfl
    rw [ofList_append_singleton]
    exact ((perm_insert hm).trans (hperm.cons m)).trans (List.perm_append_singleton m ms).symm

theorem get?_ofList (h : (ms.map Prod.fst).Nodup) (k : String) : (ofList ms).get? k = ms.get? k :=
  lookup_eq_of_perm h (perm_ofList h) k

/-- The keys of an object are the keys of its members in increasing order, and no other list of
keys is. -/
theorem keys_ofList_eq_iff {keys : List String} (h : (ms.map Prod.fst).Nodup) :
    (ofList ms).map Prod.fst = keys ↔ keys.Perm (ms.map Prod.fst) ∧ keys.Pairwise (· < ·) := by
  constructor
  · rintro rfl
    exact ⟨(perm_ofList h).map Prod.fst, pairwise_ofList ms⟩
  · rintro ⟨hperm, hsorted⟩
    have hsame : ((ofList ms).map Prod.fst).Perm keys :=
      ((perm_ofList h).map Prod.fst).trans hperm.symm
    exact hsame.eq_of_pairwise
      (fun a b _ _ hab hba => absurd hba (String.lt_asymm hab)) (pairwise_ofList ms) hsorted

end ItemMetrics.Json.Members
