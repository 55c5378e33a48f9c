import ItemMetrics.Proofs.Decimal.Layout
import ItemMetrics.Metric.Scalar
import ItemMetrics.Report.Style

/-! # Taking off styles

A style sequence is an escape character, a bracket, parameters and the letter `m`. Taking all of them
off a styled text leaves the text that was styled, whatever is written before and after it
(`Report.Unstyles`). -/

namespace ItemMetrics.Report

/-- The character that starts a control sequence. -/
def escape : Char := '\x1b'

/-- The characters that the parameters of a style sequence are written with. -/
def isParameter (c : Char) : Bool := c.isDigit || c == ';' || c == ':'

/-- What follows the style sequence that a text starts with. -/
def afterSequence? : List Char → Option (List Char)
  | '\x1b' :: '[' :: cs =>
    match cs.dropWhile isParameter with
    | 'm' :: rest => some rest
    | _ => none
  | _ => none

theorem length_afterSequence? {cs rest : List Char} (h : afterSequence? cs = some rest) :
    rest.length < cs.length := by
  unfold afterSequence? at h
  split at h
  · next cs' =>
    split at h
    · next heq =>
      cases h
      have hle := (List.dropWhile_suffix isParameter (l := cs')).length_le
      rw [heq, List.length_cons] at hle
      simp only [List.length_cons]
      omega
    · cases h
  · cases h

/-- A text without its style sequences. -/
def unstyled : List Char → List Char
  | [] => []
  | c :: cs =>
    match _h : afterSequence? (c :: cs) with
    | some rest => unstyled rest
    | none => c :: unstyled cs
termination_by cs => cs.length
decreasing_by
  · exact length_afterSequence? ‹_›
  · exact Nat.lt_succ_self _

/-- A text that starts no control sequence. -/
def EscapeFree (s : String) : Prop := escape ∉ s.toList

instance (s : String) : Decidable (EscapeFree s) :=
  inferInstanceAs (Decidable (escape ∉ s.toList))

/-- Taking the styles off `painted` leaves `plain`, whatever follows it. -/
def Unstyles (painted plain : String) : Prop :=
  ∀ rest, unstyled (painted.toList ++ rest) = plain.toList ++ unstyled rest

variable {s t painted painted' plain plain' : String} {c : Char} {cs rest : List Char}

/-! ## One sequence -/

theorem afterSequence?_of_ne (h : c ≠ escape) : afterSequence? (c :: cs) = none := by
  unfold afterSequence?
  split
  · next heq => exact absurd (List.cons.inj heq).1 h
  · rfl

theorem unstyled_cons_of_ne (h : c ≠ escape) : unstyled (c :: cs) = c :: unstyled cs := by
  rw [unstyled]
  split
  · next heq => cases (afterSequence?_of_ne h).symm.trans heq
  · rfl

theorem unstyled_of_afterSequence? (h : afterSequence? (c :: cs) = some rest) :
    unstyled (c :: cs) = unstyled rest := by
  rw [unstyled]
  split
  · next heq => cases h.symm.trans heq; rfl
  · next heq => cases h.symm.trans heq

theorem isParameter_codes (style : Style) :
    (∀ c ∈ style.codes.1.toList, isParameter c = true) ∧
      ∀ c ∈ style.codes.2.toList, isParameter c = true := by
  simp only [← List.all_eq_true]
  cases style <;> decide

theorem unstyled_sequence {code : String} (h : ∀ c ∈ code.toList, isParameter c = true)
    (rest : List Char) : unstyled ((Style.sequence code).toList ++ rest) = unstyled rest := by
  have hchars : (Style.sequence code).toList ++ rest =
      escape :: '[' :: (code.toList ++ 'm' :: rest) := by
    simp [Style.sequence, escape]
  have hparameters : (code.toList ++ 'm' :: rest).dropWhile isParameter = 'm' :: rest := by
    rw [List.dropWhile_append_of_pos h, List.dropWhile_cons_of_neg (by decide)]
  rw [hchars]
  refine unstyled_of_afterSequence? ?_
  simp only [afterSequence?, escape, hparameters]

/-! ## Styled texts -/

namespace Unstyles

theorem nil : Unstyles "" "" :=
  fun _ => rfl

theorem refl (h : EscapeFree s) : Unstyles s s := by
  intro rest
  rw [EscapeFree] at h
  generalize s.toList = cs at h ⊢
  induction cs with
  | nil => rfl
  | cons c cs ih =>
    obtain ⟨hc, hcs⟩ := not_or.mp (mt List.mem_cons.mpr h)
    rw [List.cons_append, unstyled_cons_of_ne (Ne.symm hc), ih hcs, List.cons_append]

theorem append (h : Unstyles painted plain) (h' : Unstyles painted' plain') :
    Unstyles (painted ++ painted') (plain ++ plain') := by
  intro rest
  rw [String.toList_append, List.append_assoc, h, h', String.toList_append, List.append_assoc]

theorem concat (h : Unstyles painted plain) (ht : EscapeFree t) :
    Unstyles (painted ++ t) (plain ++ t) :=
  h.append (refl ht)

theorem join {α : Type} {f g : α → String} {as : List α} (h : ∀ a ∈ as, Unstyles (f a) (g a)) :
    Unstyles (String.join (as.map f)) (String.join (as.map g)) := by
  induction as with
  | nil => exact nil
  | cons a as ih =>
    obtain ⟨ha, has⟩ := List.forall_mem_cons.mp h
    simp only [List.map_cons, String.join_cons]
    exact ha.append (ih has)

theorem apply (style : Style) (h : Unstyles painted plain) :
    Unstyles (style.apply painted) plain := by
  intro rest
  obtain ⟨hon, hoff⟩ := isParameter_codes style
  rw [Style.apply, String.toList_append, String.toList_append, List.append_assoc, List.append_assoc,
    unstyled_sequence hon, h, unstyled_sequence hoff]

theorem paint (styles : List Style) (h : EscapeFree s) :
    Unstyles (Style.paint true styles s) (Style.paint false styles s) := by
  have hfold (painted : String) (h : Unstyles painted s) :
      Unstyles (styles.foldl (fun s style => style.apply s) painted) s := by
    induction styles generalizing painted with
    | nil => exact h
    | cons style styles ih => exact ih _ (h.apply style)
  exact hfold s (refl h)

theorem unstyled_eq (h : Unstyles painted plain) : unstyled painted.toList = plain.toList := by
  have heq := h []
  rwa [List.append_nil, unstyled, List.append_nil] at heq

end Unstyles

/-- A control sequence that sets no style stays. -/
example : unstyled "\x1b[1;36mnote\x1b[39m\x1b[2J".toList = "note\x1b[2J".toList := by
  decide +kernel

/-! ## Texts that are not styled -/

theorem escapeFree_of_isNumeral (h : ∀ c ∈ s.toList, Decimal.isNumeral c = true) : EscapeFree s :=
  fun hmem => absurd (h _ hmem) (by decide)

theorem escapeFree_nat (n : Nat) : EscapeFree (toString n) := by
  refine escapeFree_of_isNumeral fun c hc => ?_
  rw [Nat.toString_eq_repr, Nat.toList_repr] at hc
  exact Decimal.isNumeral_of_mem_toDigits hc

theorem escapeFree_int (i : Int) : EscapeFree (toString i) := by
  cases i with
  | ofNat n => exact escapeFree_nat n
  | negSucc n =>
    have hsign : toString (Int.negSucc n) = "-" ++ toString (n + 1) := rfl
    rw [EscapeFree, hsign, String.toList_append, List.mem_append, not_or]
    exact ⟨by decide, escapeFree_nat (n + 1)⟩

/-- A value is shown without control sequences, unless it is a text that has some. -/
theorem escapeFree_display {v : Scalar} (h : ∀ s, v = .text s → EscapeFree s) :
    EscapeFree v.display := by
  cases v with
  | integer i => exact escapeFree_int _
  | float x =>
    rw [Scalar.display, Scalar.showFloat]
    split
    · exact escapeFree_of_isNumeral (Decimal.Layout.isNumeral_write _ x)
    split
    · decide
    split <;> decide
  | boolean b => cases b <;> decide
  | text s => exact h s rfl

end ItemMetrics.Report
