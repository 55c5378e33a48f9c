import Mathlib.Data.List.TakeWhile
import ItemMetrics.Text.Blank

/-! # Blanks around a text

Blanks at the ends of a text do not count: they are what `trim` drops (`trim_of_pads`), and of a text
that holds nothing else they leave no label (`Label.isNone_ofString?`). -/

namespace ItemMetrics

namespace Text

/-- A text with blanks added at its ends. -/
def Pads (core s : String) : Prop :=
  ∃ before after, s = before ++ core ++ after ∧ allBlank before ∧ allBlank after

variable {core s : String} {cs before after : List Char}

theorem Pads.refl (s : String) : Pads s s :=
  ⟨"", "", by simp, rfl, rfl⟩

theorem dropTrailing_append (h : after.all isBlank) (cs : List Char) :
    dropTrailing (cs ++ after) = dropTrailing cs := by
  induction cs with
  | nil => exact dropTrailing_eq_nil_iff.mpr h
  | cons c cs ih => rw [List.cons_append, dropTrailing, dropTrailing, ih]

theorem trimChars_append (hbefore : before.all isBlank) (hafter : after.all isBlank)
    (cs : List Char) : trimChars (before ++ cs ++ after) = trimChars cs := by
  have hrest : after.dropWhile isBlank = [] :=
    List.dropWhile_eq_nil_iff.mpr (List.all_eq_true.mp hafter)
  rw [trimChars, trimChars, List.append_assoc,
    List.dropWhile_append_of_pos (List.all_eq_true.mp hbefore), List.dropWhile_append]
  split
  · next hcore => rw [hrest, List.isEmpty_iff.mp hcore]
  · exact dropTrailing_append hafter _

/-- What is added at the ends is dropped. -/
theorem trim_of_pads (h : Pads core s) : trim s = trim core := by
  obtain ⟨before, after, rfl, hbefore, hafter⟩ := h
  rw [trim, trim, String.toList_append, String.toList_append, trimChars_append hbefore hafter]

/-- Only blanks are trimmed to nothing. -/
theorem trim_eq_empty_iff : trim s = "" ↔ allBlank s = true := by
  have hall : s.toList.all isBlank = (s.toList.dropWhile isBlank).all isBlank :=
    calc s.toList.all isBlank
      _ = (s.toList.takeWhile isBlank ++ s.toList.dropWhile isBlank).all isBlank := by
        rw [List.takeWhile_append_dropWhile]
      _ = (s.toList.dropWhile isBlank).all isBlank := by
        rw [List.all_append, List.all_takeWhile, Bool.true_and]
  rw [allBlank, hall, trim, ← String.toList_inj, String.toList_ofList]
  exact dropTrailing_eq_nil_iff

end Text

namespace Label

theorem isNone_ofString? (s : String) : (ofString? s).isNone = Text.allBlank s := by
  rw [Bool.eq_iff_iff, ← Text.trim_eq_empty_iff, ofString?]
  split
  · next h => simp [h]
  · next h => simp [h]

theorem allBlank_text (l : Label) : Text.allBlank l.text = false := by
  rw [← isNone_ofString?, ofString?_text]
  rfl

/-- Blank texts hold no labels. -/
theorem filterMap_ofString?_filter (texts : List String) :
    (texts.filter fun s => !Text.allBlank s).filterMap ofString? = texts.filterMap ofString? := by
  rw [List.filterMap_filter]
  refine congrArg (List.filterMap · texts) (funext fun s => ?_)
  rw [← isNone_ofString?]
  cases ofString? s <;> rfl

end Label
end ItemMetrics
