/-! Lists of entries, each a key with what it stands for. An entry that is set again keeps its place,
so keys that are distinct stay so. -/

namespace ItemMetrics.Entries

variable {α : Type} {es : List (String × α)} {key k : String} {a : α}

/-- Sets the entry of a key, in its place if it is there and at the end if not. -/
def set (es : List (String × α)) (key : String) (a : α) : List (String × α) :=
  match es with
  | [] => [(key, a)]
  | (k, b) :: es => if k = key then (k, a) :: es else (k, b) :: set es key a

theorem mem_keys_set : k ∈ (set es key a).map Prod.fst ↔ k ∈ es.map Prod.fst ∨ k = key := by
  induction es with
  | nil => simp [set]
  | cons e es ih =>
    rw [set]
    split
    · next h => simp [h, or_comm]
    · simp only [List.map_cons, List.mem_cons, ih, or_assoc]

theorem nodup_set (h : (es.map Prod.fst).Nodup) : ((set es key a).map Prod.fst).Nodup := by
  induction es with
  | nil => simp [set]
  | cons e es ih =>
    obtain ⟨he, hes⟩ := List.nodup_cons.mp h
    rw [set]
    split
    · exact h
    · next hne =>
      refine List.nodup_cons.mpr ⟨fun hmem => ?_, ih hes⟩
      rcases mem_keys_set.mp hmem with hmem | heq
      · exact he hmem
      · exact hne heq

end ItemMetrics.Entries
