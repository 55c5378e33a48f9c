import Mathlib.Data.List.Basic
import ItemMetrics.Text.Split

/-! # The pieces of a text

A text without a separator is one piece (`split_of_not_mem`), and a separator between two texts puts
their pieces side by side (`split_append`). Splitting undoes joining and joining undoes splitting
(`split_intercalate`, `intercalate_split`). -/

namespace ItemMetrics.Text

variable {p : Char → Bool} {cs : List Char} {sep : Char} {s a b : String}

theorem pieces_of_forall (h : ∀ c ∈ cs, p c = false) : pieces p cs = [cs] := by
  induction cs with
  | nil => rfl
  | cons d cs ih =>
    obtain ⟨hd, hcs⟩ := List.forall_mem_cons.mp h
    simp [pieces, hd, ih hcs]

theorem split_ne_nil (sep : Char) (s : String) : split sep s ≠ [] := by
  simp [split, pieces_ne_nil]

theorem split_of_not_mem (h : sep ∉ s.toList) : split sep s = [s] := by
  have hpieces : pieces (· == sep) s.toList = [s.toList] := by
    refine pieces_of_forall fun c hc => beq_eq_false_iff_ne.mpr ?_
    rintro rfl
    exact h hc
  rw [split, hpieces, List.map_singleton, String.ofList_toList]

theorem split_append (h : s.toList = a.toList ++ sep :: b.toList) :
    split sep s = split sep a ++ split sep b := by
  rw [split, h, pieces_append_cons (p := (· == sep)) (beq_self_eq_true sep), List.map_append]
  rfl

theorem intercalate_split (sep : Char) (s : String) :
    (String.singleton sep).intercalate (split sep s) = s := by
  have hid : String.toList ∘ String.ofList = id := funext fun _ => String.toList_ofList
  rw [← String.toList_inj, String.toList_intercalate, split, List.map_map, hid, List.map_id,
    String.toList_singleton]
  exact intercalate_pieces sep s.toList

/-- Texts without the separator are the pieces of what they are joined to. -/
theorem split_intercalate {texts : List String} (hne : texts ≠ [])
    (h : ∀ s ∈ texts, sep ∉ s.toList) :
    split sep ((String.singleton sep).intercalate texts) = texts := by
  induction texts with
  | nil => exact absurd rfl hne
  | cons s texts ih =>
    obtain ⟨hs, htexts⟩ := List.forall_mem_cons.mp h
    by_cases hrest : texts = []
    · rw [hrest, String.intercalate_singleton, split_of_not_mem hs]
    · have hsplit : split sep ((String.singleton sep).intercalate (s :: texts)) =
          split sep s ++ split sep ((String.singleton sep).intercalate texts) := by
        refine split_append ?_
        rw [String.intercalate_cons_of_ne_nil hrest]
        simp
      rw [hsplit, split_of_not_mem hs, ih hrest htexts, List.singleton_append]

theorem not_mem_of_mem_split (h : s ∈ split sep a) : sep ∉ s.toList := by
  obtain ⟨cs, hcs, rfl⟩ := List.mem_map.mp h
  intro hsep
  rw [String.toList_ofList] at hsep
  simpa using not_mem_of_mem_pieces hcs hsep

end ItemMetrics.Text
