import Mathlib.Data.List.Induction
import Mathlib.Data.List.Nodup
import Mathlib.Data.List.Perm.Basic
import ItemMetrics.Entries
import ItemMetrics.Metric.Definition

/-! # Lists with distinct keys

In a list whose elements have distinct keys a search for a key finds exactly the element that has it,
wherever it stands (`find?_key_eq_some_iff`). A key that is put where it belongs leaves keys in their
order (`pairwise_insertKey`). Without its duplicates a list holds the first occurrence of each of its
elements (`firstOccurrences_iff`). -/

namespace ItemMetrics

theorem lookup_cons_eq_ite {κ α : Type} [BEq κ] [LawfulBEq κ] [DecidableEq κ] (k key : κ) (a : α)
    (l : List (κ × α)) : ((key, a) :: l).lookup k = if k = key then some a else l.lookup k := by
  rw [List.lookup_cons]
  split
  · next h => rw [if_pos (beq_iff_eq.mp h)]
  · next h => rw [if_neg (beq_eq_false_iff_ne.mp h)]

/-- In a list with distinct keys a look-up finds every entry. -/
theorem lookup_eq_some_iff_mem {κ α : Type} [BEq κ] [LawfulBEq κ] {l : List (κ × α)} {k : κ} {a : α}
    (h : (l.map Prod.fst).Nodup) : l.lookup k = some a ↔ (k, a) ∈ l := by
  have hsome {b : α} (hb : l.lookup k = some b) : (k, b) ∈ l := by
    obtain ⟨before, after, rfl, -⟩ := List.lookup_eq_some_iff.mp hb
    exact List.mem_append_right _ List.mem_cons_self
  refine ⟨hsome, fun ha => ?_⟩
  cases hk : l.lookup k with
  | none => simpa using List.lookup_eq_none_iff.mp hk (k, a) ha
  | some b =>
    have heq : (k, b) = (k, a) := List.inj_on_of_nodup_map h (hsome hk) ha rfl
    rw [(Prod.mk.inj heq).2]

/-- A look-up under distinct keys does not depend on the order. -/
theorem lookup_eq_of_perm {κ α : Type} [BEq κ] [LawfulBEq κ] {l l' : List (κ × α)}
    (h : (l.map Prod.fst).Nodup) (hperm : l'.Perm l) (k : κ) : l'.lookup k = l.lookup k := by
  have h' : (l'.map Prod.fst).Nodup := (hperm.map Prod.fst).nodup_iff.mpr h
  ext a
  rw [lookup_eq_some_iff_mem h', lookup_eq_some_iff_mem h, hperm.mem_iff]

/-- Without the entries of one key a list is the same at all others. -/
theorem lookup_filter_ne {κ α : Type} [BEq κ] [LawfulBEq κ] [DecidableEq κ] (l : List (κ × α))
    (key k : κ) :
    (l.filter (·.1 ≠ key)).lookup k = if k = key then none else l.lookup k := by
  induction l with
  | nil => simp
  | cons e l ih =>
    obtain ⟨k', a⟩ := e
    by_cases hk' : k' = key
    · rw [List.filter_cons_of_neg (by simpa using hk'), ih, lookup_cons_eq_ite, hk']
      split <;> rfl
    · rw [List.filter_cons_of_pos (by simpa using hk'), lookup_cons_eq_ite, lookup_cons_eq_ite, ih]
      split
      · next hk => rw [if_neg (hk ▸ hk')]
      · rfl

namespace Entries

variable {α : Type} {es : List (String × α)} {k l : String} {a : α}

/-! ## An entry that is set -/

theorem set_of_not_mem (h : k ∉ es.map Prod.fst) : set es k a = es ++ [(k, a)] := by
  induction es with
  | nil => rfl
  | cons e es ih =>
    rw [List.map_cons, List.mem_cons, not_or] at h
    rw [set, if_neg (Ne.symm h.1), ih h.2, List.cons_append]

theorem map_fst_set_of_mem (h : k ∈ es.map Prod.fst) :
    (set es k a).map Prod.fst = es.map Prod.fst := by
  induction es with
  | nil => cases h
  | cons e es ih =>
    rw [set]
    split
    · rfl
    · next hne =>
      rcases List.mem_cons.mp h with heq | hmem
      · exact absurd heq.symm hne
      · rw [List.map_cons, ih hmem, List.map_cons]

theorem lookup_set (es : List (String × α)) :
    (set es k a).lookup l = if l = k then some a else es.lookup l := by
  induction es with
  | nil => grind [set]
  | cons e es ih =>
    rw [set]
    -- in place of the entry, or behind it
    split
    · grind
    · rw [lookup_cons_eq_ite, ih, lookup_cons_eq_ite]
      grind

end Entries

/-! ## Elements with a key -/

/-- Where keys are distinct a search finds exactly the element with the key. -/
theorem find?_key_eq_some_iff {α : Type} {l : List α} {f : α → String} {k : String} {a : α}
    (h : (l.map f).Nodup) : l.find? (f · == k) = some a ↔ a ∈ l ∧ f a = k := by
  have hsome {b : α} (hb : l.find? (f · == k) = some b) : b ∈ l ∧ f b = k :=
    ⟨List.mem_of_find?_eq_some hb, by simpa using List.find?_some hb⟩
  refine ⟨hsome, ?_⟩
  rintro ⟨ha, rfl⟩
  have hfound : (l.find? (f · == f a)).isSome = true :=
    List.find?_isSome.mpr ⟨a, ha, beq_iff_eq.mpr rfl⟩
  obtain ⟨b, hb⟩ := Option.isSome_iff_exists.mp hfound
  rwa [List.inj_on_of_nodup_map h (hsome hb).1 ha (hsome hb).2] at hb

theorem Label.text_injective : Function.Injective Label.text := fun _ _ => Label.ext

theorem TypeDefinition.nodup_keys (d : TypeDefinition) : (d.metrics.map (·.key.text)).Nodup := by
  have h := List.Nodup.map Label.text_injective d.nodup
  rwa [List.map_map] at h

/-- Texts that are sorted increase. -/
theorem pairwise_mergeSort_le (l : List String) :
    (l.mergeSort fun a b => decide (a ≤ b)).Pairwise (· ≤ ·) := by
  have htrans (a b c : String) : decide (a ≤ b) → decide (b ≤ c) → decide (a ≤ c) := by
    simp only [decide_eq_true_eq]
    exact String.le_trans
  have htotal (a b : String) : decide (a ≤ b) || decide (b ≤ a) := by
    simp only [Bool.or_eq_true, decide_eq_true_eq]
    exact String.le_total a b
  exact (List.pairwise_mergeSort htrans htotal l).imp of_decide_eq_true

/-- What was mapped can be put into any order of what it was mapped to. -/
theorem exists_perm_of_map {α β : Type} {f : α → β} {l : List α} {l' : List β}
    (h : l'.Perm (l.map f)) : ∃ t : List α, t.map f = l' ∧ t.Perm l := by
  have hcomp := congrFun (congrFun (List.eq_map_comp_perm f) l') l
  obtain ⟨t, ht, hperm⟩ := hcomp.mpr h
  exact ⟨t, ht.symm, hperm⟩

/-! ## Keys in increasing order -/

/-- Puts a key into a list of increasing keys, unless it is there. -/
def insertKey (key : String) : List String → List String
  | [] => [key]
  | k :: ks =>
    if key < k then key :: k :: ks else if key = k then k :: ks else k :: insertKey key ks

theorem mem_insertKey {key k : String} {ks : List String} :
    k ∈ insertKey key ks ↔ k = key ∨ k ∈ ks := by
  induction ks with
  | nil => simp [insertKey]
  | cons l ks ih =>
    rw [insertKey]
    split
    · simp
    · split
      · next h => simp [h]
      · simp only [List.mem_cons, ih]
        exact or_left_comm

theorem pairwise_insertKey {key : String} {ks : List String} (h : ks.Pairwise (· < ·)) :
    (insertKey key ks).Pairwise (· < ·) := by
  induction ks with
  | nil => simp [insertKey]
  | cons k ks ih =>
    obtain ⟨hhead, htail⟩ := List.pairwise_cons.mp h
    rw [insertKey]
    split
    · next hlt =>
      refine List.pairwise_cons.mpr ⟨fun l hl => ?_, h⟩
      rcases List.mem_cons.mp hl with rfl | hl
      · exact hlt
      · exact String.lt_trans hlt (hhead l hl)
    · next hlt =>
      split
      · exact h
      · next hne =>
        refine List.pairwise_cons.mpr ⟨fun l hl => ?_, ih htail⟩
        rcases mem_insertKey.mp hl with rfl | hl
        · exact Std.lt_of_le_of_ne (String.not_lt.mp hlt) (Ne.symm hne)
        · exact hhead l hl

theorem nodup_of_pairwise_lt {ks : List String} (h : ks.Pairwise (· < ·)) : ks.Nodup := by
  refine h.imp ?_
  rintro k _ hlt rfl
  exact String.lt_irrefl k hlt

/-! ## First occurrences -/

/-- Without its duplicates a list holds nothing twice. -/
theorem nodup_eraseDups {α : Type} [BEq α] [LawfulBEq α] (l : List α) : l.eraseDups.Nodup := by
  -- on the length, as what is left after an element is filtered before it is visited
  induction hlength : l.length using Nat.strongRecOn generalizing l with
  | ind n ih =>
    cases l with
    | nil => simp
    | cons a l =>
      rw [List.eraseDups_cons, List.nodup_cons]
      refine ⟨by simp [List.mem_eraseDups], ih _ ?_ _ rfl⟩
      rw [← hlength]
      exact Nat.lt_succ_of_le (List.length_filter_le _ l)

/-- What is kept of a list when an element that occurred before is dropped. -/
inductive FirstOccurrences {α : Type} : List α → List α → Prop
  | nil : FirstOccurrences [] []
  | new {all kept : List α} {a : α} : FirstOccurrences all kept → a ∉ all →
    FirstOccurrences (all ++ [a]) (kept ++ [a])
  | again {all kept : List α} {a : α} : FirstOccurrences all kept → a ∈ all →
    FirstOccurrences (all ++ [a]) kept

theorem eraseDups_append_singleton {α : Type} [BEq α] [LawfulBEq α] (l : List α) (a : α) :
    (l ++ [a]).eraseDups = if l.contains a then l.eraseDups else l.eraseDups ++ [a] := by
  have hrest : [a].removeAll l = if l.contains a then [] else [a] := by
    cases h : l.contains a <;> simp_all [List.removeAll]
  rw [List.eraseDups_append, hrest]
  split <;> simp [List.eraseDups_cons]

theorem firstOccurrences_iff {α : Type} [BEq α] [LawfulBEq α] {all kept : List α} :
    FirstOccurrences all kept ↔ kept = all.eraseDups := by
  constructor
  · intro h
    induction h with
    | nil => rfl
    | new _ ha ih => rw [eraseDups_append_singleton, if_neg (by simpa using ha), ih]
    | again _ ha ih => rw [eraseDups_append_singleton, if_pos (by simpa using ha), ih]
  · rintro rfl
    induction all using List.reverseRecOn with
    | nil => exact .nil
    | append_singleton all a ih =>
      rw [eraseDups_append_singleton]
      split
      · next h => exact .again ih (by simpa using h)
      · next h => exact .new ih (by simpa using h)

theorem FirstOccurrences.mem_iff {α : Type} {all kept : List α} {a : α}
    (h : FirstOccurrences all kept) : a ∈ kept ↔ a ∈ all := by
  classical
  rw [firstOccurrences_iff.mp h, List.mem_eraseDups]

theorem FirstOccurrences.nodup {α : Type} {all kept : List α} (h : FirstOccurrences all kept) :
    kept.Nodup := by
  classical
  exact firstOccurrences_iff.mp h ▸ nodup_eraseDups all

/-- Nothing is dropped from a list that holds nothing twice. -/
theorem firstOccurrences_self {α : Type} {l : List α} (h : l.Nodup) : FirstOccurrences l l := by
  induction l using List.reverseRecOn with
  | nil => exact .nil
  | append_singleton l a ih =>
    obtain ⟨hl, -, hdisjoint⟩ := List.nodup_append.mp h
    exact .new (ih hl) fun ha => hdisjoint a ha a (List.mem_singleton_self a) rfl

end ItemMetrics
