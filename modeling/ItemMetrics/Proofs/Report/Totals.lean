import Mathlib.Algebra.GroupWithZero.Nat
import ItemMetrics.Proofs.Report.Console
import ItemMetrics.Proofs.Text.Bytes

/-! # How many items there are of each type

Counting one more item keeps the types in their order (`Report.pairwise_count`) and changes one count
(`Report.lookup_count`), so each type that occurs is listed with the number of its items
(`Report.totals_tally`). That determines the list, and the order of the items has no part in it
(`Report.Totals.eq_of_perm`). -/

namespace ItemMetrics.Report

variable {items items' : List Item} {cs totals totals' : List (String × Nat)} {key type : String}

/-! ## One more item -/

theorem pairwise_count (h : (cs.map Prod.fst).Pairwise (· < ·)) :
    ((count key cs).map Prod.fst).Pairwise (· < ·) := by
  rw [map_fst_count]
  exact pairwise_insertKey h

theorem lookup_count (h : (cs.map Prod.fst).Pairwise (· < ·)) :
    (count key cs).lookup type =
      if type = key then some ((cs.lookup key).getD 0 + 1) else cs.lookup type := by
  induction cs with
  | nil => grind [count]
  | cons c cs ih =>
    obtain ⟨hhead, htail⟩ := List.pairwise_cons.mp h
    rw [count]
    split
    · next hlt =>
      -- the keys that follow are greater still
      have hnone : (c :: cs).lookup key = none := by
        refine List.lookup_eq_none_iff.mpr fun e he => bne_iff_ne.mpr fun heq => ?_
        rcases List.mem_cons.mp he with rfl | he
        · exact String.lt_irrefl _ (heq ▸ hlt)
        · exact String.lt_asymm hlt (heq ▸ hhead e.1 (List.mem_map_of_mem he))
      rw [List.lookup_cons, hnone]
      grind
    · split
      · grind
      · rw [List.lookup_cons, ih htail]
        grind

theorem sum_count (key : String) (cs : List (String × Nat)) :
    ((count key cs).map Prod.snd).sum = (cs.map Prod.snd).sum + 1 := by
  induction cs with
  | nil => rfl
  | cons c cs ih =>
    rw [count]
    split
    · simp only [List.map_cons, List.sum_cons]; omega
    · split
      · simp only [List.map_cons, List.sum_cons]; omega
      · simp only [List.map_cons, List.sum_cons, ih]; omega

/-! ## All items -/

theorem tally_append_singleton (items : List Item) (item : Item) :
    tally (items ++ [item]) = count item.evaluation.type (tally items) := by
  rw [tally, tally, List.foldl_append, List.foldl_cons, List.foldl_nil]

theorem pairwise_tally (items : List Item) : ((tally items).map Prod.fst).Pairwise (· < ·) := by
  induction items using List.reverseRecOn with
  | nil => exact .nil
  | append_singleton items item ih =>
    rw [tally_append_singleton]
    exact pairwise_count ih

theorem sum_tally (items : List Item) : ((tally items).map Prod.snd).sum = items.length := by
  induction items using List.reverseRecOn with
  | nil => rfl
  | append_singleton items item ih =>
    rw [tally_append_singleton, sum_count, ih, List.length_append, List.length_singleton]

/-- The types that occur, in increasing order of their bytes, each with the number of its items. -/
structure Totals (items : List Item) (totals : List (String × Nat)) : Prop where
  increasing : totals.Pairwise fun s t => Text.bytes s.1 < Text.bytes t.1
  counts : ∀ type n, (type, n) ∈ totals ↔
    0 < n ∧ items.countP (·.evaluation.type = type) = n

theorem lookup_tally (items : List Item) (type : String) :
    (tally items).lookup type =
      match items.countP (·.evaluation.type = type) with
      | 0 => none
      | n + 1 => some (n + 1) := by
  induction items using List.reverseRecOn with
  | nil => rfl
  | append_singleton items item ih =>
    rw [tally_append_singleton, lookup_count (pairwise_tally items), ih, List.countP_append,
      List.countP_singleton]
    grind

theorem totals_tally (items : List Item) : Totals items (tally items) where
  increasing := (List.pairwise_map.mp (pairwise_tally items)).imp Text.bytes_lt_iff.mpr
  counts type n := by
    rw [← lookup_eq_some_iff_mem (nodup_of_pairwise_lt (pairwise_tally items)), lookup_tally]
    split <;> grind

theorem Totals.nodup (h : Totals items totals) : totals.Nodup := by
  refine h.increasing.imp ?_
  rintro t _ hlt rfl
  exact List.lt_irrefl _ hlt

/-- What the totals are does not depend on the order of the items. -/
theorem Totals.eq_of_perm (h : Totals items totals) (h' : Totals items' totals')
    (hperm : items'.Perm items) : totals' = totals := by
  have hmem (t : String × Nat) : t ∈ totals' ↔ t ∈ totals := by
    rw [h.counts, h'.counts, hperm.countP_eq]
  have hsame : totals'.Perm totals := (List.perm_ext_iff_of_nodup h'.nodup h.nodup).mpr hmem
  exact hsame.eq_of_pairwise (fun _ _ _ _ hst hts => absurd hts (List.lt_asymm hst))
    h'.increasing h.increasing

end ItemMetrics.Report
