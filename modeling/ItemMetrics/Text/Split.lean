/-! Cutting a text at separators. The pieces of a text, joined by the separator, are the text again
(`intercalate_pieces`), and no piece holds a separator (`not_mem_of_mem_pieces`). -/

namespace ItemMetrics.Text

/-- The pieces between the characters that satisfy `p`. There is always at least one. -/
def pieces (p : Char → Bool) : List Char → List (List Char)
  | [] => [[]]
  | c :: cs =>
    if p c then [] :: pieces p cs
    else
      match pieces p cs with
      | [] => [[c]]
      | w :: ws => (c :: w) :: ws

/-- The pieces of a text between the occurrences of `sep`. -/
def split (sep : Char) (s : String) : List String :=
  (pieces (· == sep) s.toList).map String.ofList

theorem pieces_ne_nil (p : Char → Bool) (cs : List Char) : pieces p cs ≠ [] := by
  cases cs with
  | nil => simp [pieces]
  | cons c cs =>
    rw [pieces]
    split
    · simp
    · split <;> simp

/-- A separator in the middle cuts a text into the pieces of its two sides. -/
theorem pieces_append_cons {p : Char → Bool} {c : Char} (hc : p c = true) (as bs : List Char) :
    pieces p (as ++ c :: bs) = pieces p as ++ pieces p bs := by
  induction as with
  | nil => simp [pieces, hc]
  | cons a as ih =>
    rw [List.cons_append, pieces, pieces, ih]
    split
    · rfl
    · cases h : pieces p as with
      | nil => exact absurd h (pieces_ne_nil _ _)
      | cons w ws => rfl

theorem intercalate_pieces (sep : Char) (cs : List Char) :
    [sep].intercalate (pieces (· == sep) cs) = cs := by
  induction cs with
  | nil => rfl
  | cons c cs ih =>
    rw [pieces]
    cases h : pieces (· == sep) cs with
    | nil => exact absurd h (pieces_ne_nil _ _)
    | cons w ws =>
      rw [h] at ih
      split
      · next hc =>
        rw [← ih, beq_iff_eq.mp hc]
        cases ws <;> simp [List.intercalate]
      · rw [← ih]
        cases ws <;> simp [List.intercalate]

theorem not_mem_of_mem_pieces {p : Char → Bool} {cs w : List Char} {c : Char}
    (hw : w ∈ pieces p cs) (hc : c ∈ w) : p c = false := by
  induction cs generalizing w with
  | nil => simp [pieces] at hw; simp [hw] at hc
  | cons d cs ih =>
    rw [pieces] at hw
    split at hw
    · rcases List.mem_cons.mp hw with rfl | hw
      · simp at hc
      · exact ih hw hc
    · next hd =>
      cases h : pieces p cs with
      | nil => exact absurd h (pieces_ne_nil _ _)
      | cons v vs =>
        rw [h] at hw ih
        rcases List.mem_cons.mp hw with rfl | hw
        · rcases List.mem_cons.mp hc with rfl | hc
          · simpa using hd
          · exact ih (List.mem_cons_self ..) hc
        · exact ih (List.mem_cons_of_mem _ hw) hc

end ItemMetrics.Text
