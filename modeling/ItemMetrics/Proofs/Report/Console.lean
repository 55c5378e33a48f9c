import ItemMetrics.Proofs.Registry.History
import ItemMetrics.Report.Console

/-! # When a report can be written

The report for a reader looks up every type that occurs among the items, and nothing else in it can
fail (`Report.console_eq_ok_iff`). -/

namespace ItemMetrics.Report

variable {items : List Item} {cs : List (String × Nat)} {key type : String} {registry : Registry}
  {colors : Bool}

theorem map_fst_count (key : String) (cs : List (String × Nat)) :
    (count key cs).map Prod.fst = insertKey key (cs.map Prod.fst) := by
  induction cs with
  | nil => rfl
  | cons c cs ih =>
    rw [count, List.map_cons, insertKey]
    split
    · rfl
    · split
      · rfl
      · rw [List.map_cons, ih]

/-- The types that are counted are those that occur. -/
theorem mem_map_fst_tally :
    type ∈ (tally items).map Prod.fst ↔ ∃ item ∈ items, item.evaluation.type = type := by
  have hfold (cs : List (String × Nat)) :
      type ∈ (items.foldl (fun cs item => count item.evaluation.type cs) cs).map Prod.fst ↔
        (∃ item ∈ items, item.evaluation.type = type) ∨ type ∈ cs.map Prod.fst := by
    induction items generalizing cs with
    | nil => simp
    | cons item items ih =>
      rw [List.foldl_cons, ih, map_fst_count, mem_insertKey, ← or_assoc]
      refine or_congr_left ?_
      rw [List.exists_mem_cons_iff, or_comm, eq_comm]
  rw [tally, hfold]
  simp

/-- The lines of the types can be written when each of the types is registered. -/
theorem typeLines_eq_ok_iff (colors : Bool) :
    (typeLines colors registry cs).2 = .ok () ↔
      ∀ type ∈ cs.map Prod.fst, type ∈ registry.types := by
  induction cs with
  | nil => simp [typeLines]
  | cons c cs ih =>
    obtain ⟨k, n⟩ := c
    rw [List.map_cons, List.forall_mem_cons, ← ih, ← Registry.exists_get_iff, typeLines]
    cases registry.get k <;> simp

/-! ## The whole report -/

theorem console_of_no_types (h : tally items = []) :
    console colors registry items = (banner colors ++ line "No items were processed.", .ok ()) := by
  rw [console, h]

theorem console_of_lines {text : String} (h : tally items ≠ [])
    (hlines : typeLines colors registry (tally items) = (text, .ok ())) :
    console colors registry items =
      (banner colors ++ text ++ line "" ++ String.join (items.map (itemBlock colors)), .ok ()) := by
  rw [console]
  split
  · next hnil => exact absurd hnil h
  · simp only [hlines]

/-- Nothing is written after the lines of the types if one of these is not registered. -/
theorem console_of_error {text : String} {e : RegistryError}
    (hlines : typeLines colors registry (tally items) = (text, .error e)) :
    console colors registry items = (banner colors ++ text, .error e) := by
  rw [console]
  split
  · next hnil => rw [hnil, typeLines] at hlines; cases hlines
  · simp only [hlines]

/-- The report can be written when the type of each item is registered. -/
theorem console_eq_ok_iff :
    (console colors registry items).2 = .ok () ↔
      ∀ item ∈ items, item.evaluation.type ∈ registry.types := by
  have htypes : (∀ item ∈ items, item.evaluation.type ∈ registry.types) ↔
      ∀ type ∈ (tally items).map Prod.fst, type ∈ registry.types := by
    simp only [mem_map_fst_tally]
    exact ⟨fun h type ⟨item, hitem, htype⟩ => htype ▸ h item hitem, fun h item hitem =>
      h _ ⟨item, hitem, rfl⟩⟩
  rw [htypes, ← typeLines_eq_ok_iff colors, console]
  split
  · next h => simp [h, typeLines]
  · split
    · next h => simp [h]
    · next h => simp [h]

end ItemMetrics.Report
