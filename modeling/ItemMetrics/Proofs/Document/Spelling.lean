import ItemMetrics.Proofs.Document.Naming

/-! # Texts that spell names

A name is written as a text with any blanks around it. What the readers of single fields accept and
how they refuse the rest, in terms of these texts (`Json.requireLabel_eq_error_iff`,
`Json.labels_eq_error_iff` and their counterparts for success). -/

namespace ItemMetrics.Json

/-- A value is a text that is a label but for the blanks around it. -/
def Spells (value : Json) (l : Label) : Prop :=
  ∃ s, value = .string s ∧ Text.trim s = l.text

/-- A value is a text that does not consist of blanks. -/
def IsName (value : Json) : Prop :=
  ∃ s, value = .string s ∧ Text.trim s ≠ ""

/-- A field spells a label. -/
def HoldsLabel (payload : Json) (key : String) (l : Label) : Prop :=
  ∃ value, payload.get? key = some value ∧ value.Spells l

/-- A field holds a text that does not consist of blanks. -/
def HoldsName (payload : Json) (key : String) : Prop :=
  ∃ value, payload.get? key = some value ∧ value.IsName

/-- A field is absent or null. -/
def Lacks (payload : Json) (key : String) : Prop :=
  payload.get? key = none ∨ payload.get? key = some .null

/-- A field is absent, null or an array of names. -/
def HoldsNames (payload : Json) (key : String) : Prop :=
  payload.Lacks key ∨ ∃ items, payload.get? key = some (.array items) ∧ ∀ item ∈ items, item.IsName

variable {payload value : Json} {key owner field : String} {l l' : Label} {ls : List Label}
  {items : List Json} {e : FieldError}

/-! ## Single texts -/

theorem Spells.unique (h : value.Spells l) (h' : value.Spells l') : l = l' := by
  obtain ⟨s, rfl, hs⟩ := h
  obtain ⟨s', hvalue, hs'⟩ := h'
  cases hvalue
  exact Label.ext (hs.symm.trans hs')

theorem isName_iff : value.IsName ↔ ∃ l, value.Spells l := by
  constructor
  · rintro ⟨s, rfl, hs⟩
    exact ⟨⟨Text.trim s, Text.trim_trim s, hs⟩, s, rfl, rfl⟩
  · rintro ⟨l, s, rfl, hs⟩
    exact ⟨s, rfl, hs ▸ l.nonempty⟩

theorem label?_eq_some_iff : value.label? = some l ↔ value.Spells l := by
  unfold Spells
  rw [← Option.bind_some value label?, bind_label?_eq_some_iff]
  simp only [Option.some.injEq]

theorem label?_eq_none_iff : value.label? = none ↔ ¬ value.IsName := by
  simp only [isName_iff, ← label?_eq_some_iff, not_exists, Option.eq_none_iff_forall_ne_some]

/-! ## Fields with one text -/

theorem HoldsLabel.unique (h : payload.HoldsLabel key l) (h' : payload.HoldsLabel key l') :
    l = l' := by
  obtain ⟨value, hvalue, hl⟩ := h
  obtain ⟨value', hvalue', hl'⟩ := h'
  cases hvalue.symm.trans hvalue'
  exact hl.unique hl'

theorem holdsName_iff : payload.HoldsName key ↔ ∃ l, payload.HoldsLabel key l := by
  simp only [HoldsName, HoldsLabel, isName_iff]
  tauto

theorem isObject_of_get? (h : payload.get? key = some value) : payload.isObject = true := by
  cases payload <;> first | rfl | cases h

theorem HoldsLabel.isObject (h : payload.HoldsLabel key l) : payload.isObject = true := by
  obtain ⟨value, hvalue, -⟩ := h
  exact isObject_of_get? hvalue

theorem bind_label?_get?_eq_some_iff :
    (payload.get? key).bind label? = some l ↔ payload.HoldsLabel key l := by
  simp only [Option.bind_eq_some_iff, label?_eq_some_iff, HoldsLabel]

theorem HoldsLabel.requireLabel (h : payload.HoldsLabel key l) (owner : String) :
    payload.requireLabel key owner = .ok l :=
  requireLabel_eq_ok_iff.mpr (bind_label?_get?_eq_some_iff.mpr h)

theorem requireLabel_eq_error_iff :
    payload.requireLabel key owner = .error e ↔
      ¬ payload.HoldsName key ∧ e = .notText key owner := by
  rw [holdsName_iff]
  constructor
  · intro h
    refine ⟨?_, ?_⟩
    · rintro ⟨l, hl⟩
      cases (hl.requireLabel owner).symm.trans h
    · unfold requireLabel at h
      split at h <;> cases h
      rfl
  · rintro ⟨hnone, rfl⟩
    unfold requireLabel
    split
    · next l h => exact absurd ⟨l, bind_label?_get?_eq_some_iff.mp h⟩ hnone
    · rfl

/-! ## Fields with a list of texts -/

theorem map_label?_eq_iff : items.map label? = ls.map some ↔ List.Forall₂ Spells items ls := by
  induction items generalizing ls with
  | nil => cases ls <;> simp
  | cons item items ih => cases ls <;> simp [label?_eq_some_iff, ih]

theorem forall_isName_iff : (∀ item ∈ items, item.IsName) ↔ ∃ ls, List.Forall₂ Spells items ls := by
  rw [exists_forall₂_iff]
  exact forall₂_congr fun _ _ => isName_iff

theorem labels_eq_ok_iff_spells :
    payload.labels key field = .ok ls ↔
      payload.Lacks key ∧ ls = [] ∨
        ∃ items, payload.get? key = some (.array items) ∧ List.Forall₂ Spells items ls := by
  simp only [labels_eq_ok_iff, map_label?_eq_iff, Lacks]

/-- Why a field is no list of names: it is no list, or something in it is no name. -/
inductive Unlisted (payload : Json) (key field : String) : FieldError → Prop
  | notSequence : ¬ payload.Lacks key → (∀ items, payload.get? key ≠ some (.array items)) →
    Unlisted payload key field (.notSequence field)
  | badEntry {items : List Json} : payload.get? key = some (.array items) →
    ¬ (∀ item ∈ items, item.IsName) → Unlisted payload key field (.badEntry field)

theorem Unlisted.unique {e' : FieldError} (h : payload.Unlisted key field e)
    (h' : payload.Unlisted key field e') : e = e' := by
  cases h with
  | notSequence _ hno =>
    cases h' with
    | notSequence => rfl
    | badEntry h' => exact absurd h' (hno _)
  | badEntry h =>
    cases h' with
    | notSequence _ hno => exact absurd h (hno _)
    | badEntry => rfl

theorem unlisted_of_labels (h : payload.labels key field = .error e) :
    payload.Unlisted key field e := by
  unfold labels at h
  split at h
  · cases h
  · cases h
  · next items hitems =>
    obtain ⟨before, item, after, ls, rfl, -, hitem⟩ := Except.mapM_eq_error_iff.mp h
    split at hitem
    · cases hitem
    · next hnone =>
      cases hitem
      exact .badEntry hitems fun hall => label?_eq_none_iff.mp hnone (hall item (by simp))
  · next value hnull harray hvalue =>
    cases h
    refine .notSequence ?_ fun items hitems => ?_
    · rintro (hnone | hnull')
      · cases hvalue.symm.trans hnone
      · exact hnull (Option.some.inj (hvalue.symm.trans hnull'))
    · exact harray items (Option.some.inj (hvalue.symm.trans hitems))

/-- A list of labels is refused when it is no list, or when something in it is no name. -/
theorem labels_eq_error_iff :
    payload.labels key field = .error e ↔ payload.Unlisted key field e := by
  refine ⟨unlisted_of_labels, fun h => ?_⟩
  cases hlabels : payload.labels key field with
  | error e' => rw [(unlisted_of_labels hlabels).unique h]
  | ok ls =>
    obtain ⟨hlacks, -⟩ | ⟨items, hitems, hall⟩ := labels_eq_ok_iff_spells.mp hlabels
    · cases h with
      | notSequence hnot => exact absurd hlacks hnot
      | badEntry hitems => rcases hlacks with h | h <;> cases h.symm.trans hitems
    · cases h with
      | notSequence _ hno => exact absurd hitems (hno items)
      | badEntry hitems' hnot =>
        cases hitems.symm.trans hitems'
        exact absurd (forall_isName_iff.mpr ⟨ls, hall⟩) hnot

end ItemMetrics.Json
