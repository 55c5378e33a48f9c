import ItemMetrics.Proofs.Document.Spelling
import ItemMetrics.Proofs.Keys
import ItemMetrics.Proofs.Text.Padding

/-! # Lists of names

A field that lists names is read as the names in it, each where it occurs first. The blanks around
them do not count, nor do later entries that repeat an earlier one (`Json.Relists.lists_iff`). -/

namespace ItemMetrics.Json

/-- Two texts that are the same but for the blanks around them. -/
def Respells (a b : Json) : Prop :=
  ∃ core s t, a = .string s ∧ b = .string t ∧ Text.Pads core s ∧ Text.Pads core t

/-- Two fields hold texts that are the same but for the blanks around them. -/
def RespellsAt (key : String) (a b : Json) : Prop :=
  ∃ s t, a.get? key = some s ∧ b.get? key = some t ∧ Respells s t

/-- Nothing is set in a field: it is absent, null or holds nothing. -/
def Unset (key : String) (empty payload : Json) : Prop :=
  payload.Lacks key ∨ payload.get? key = some empty

/-- Two lists of texts that are the same but for the blanks around these, and for later entries that
repeat an earlier one. -/
inductive Relists : List Json → List Json → Prop
  | nil : Relists [] []
  | entry {items items' : List Json} {a b : Json} : Relists items items' → Respells a b →
    Relists (items ++ [a]) (items' ++ [b])
  | repeated {items items' : List Json} {a b : Json} : Relists items items' → b ∈ items →
    Respells a b → Relists (items ++ [a]) items'
  | symm {items items' : List Json} : Relists items items' → Relists items' items

/-- The names that a list spells, each where it occurs first. -/
def Lists (items : List Json) (kept : List Label) : Prop :=
  ∃ all, List.Forall₂ Spells items all ∧ FirstOccurrences all kept

/-- The dependencies that a field lists; none if there is no such field. -/
def ListsAt (key : String) (payload : Json) (kept : List Label) : Prop :=
  payload.Lacks key ∧ kept = [] ∨
    ∃ items, payload.get? key = some (.array items) ∧ Lists items kept

variable {a b payload : Json} {key : String} {l : Label} {items items' : List Json}
  {kept : List Label}

/-! ## Single texts -/

theorem Respells.spells_iff (h : Respells a b) : a.Spells l ↔ b.Spells l := by
  obtain ⟨core, s, t, rfl, rfl, hs, ht⟩ := h
  have htrim : Text.trim s = Text.trim t := (Text.trim_of_pads hs).trans (Text.trim_of_pads ht).symm
  simp only [← label?_eq_some_iff, label?, string?, Option.bind_some, Label.ofString?_eq_some_iff,
    htrim]

theorem RespellsAt.holdsLabel_iff (h : RespellsAt key a b) :
    a.HoldsLabel key l ↔ b.HoldsLabel key l := by
  obtain ⟨s, t, hs, ht, hst⟩ := h
  simp only [HoldsLabel, hs, ht, Option.some.injEq, exists_eq_left', hst.spells_iff]

/-! ## Lists of texts -/

theorem lists_nil_iff : Lists [] kept ↔ kept = [] := by
  constructor
  · rintro ⟨all, hall, hkept⟩
    cases hall
    exact firstOccurrences_iff.mp hkept
  · rintro rfl
    exact ⟨[], .nil, .nil⟩

/-- An entry at the end is kept unless it was listed before. -/
theorem lists_concat_iff :
    Lists (items ++ [a]) kept ↔
      ∃ before l, Lists items before ∧ a.Spells l ∧
        kept = if l ∈ before then before else before ++ [l] := by
  simp only [Lists, ← map_label?_eq_iff, firstOccurrences_iff, ← label?_eq_some_iff]
  constructor
  · rintro ⟨all, hall, rfl⟩
    rw [List.map_append, eq_comm, List.map_eq_append_iff] at hall
    obtain ⟨before, last, rfl, hbefore, hlast⟩ := hall
    obtain ⟨l, rfl, hl⟩ := List.map_eq_singleton_iff.mp hlast
    refine ⟨before.eraseDups, l, ⟨before, hbefore.symm, rfl⟩, hl.symm, ?_⟩
    rw [eraseDups_append_singleton]
    simp only [List.contains_iff_mem, List.mem_eraseDups]
  · rintro ⟨_, l, ⟨all, hall, rfl⟩, hl, rfl⟩
    refine ⟨all ++ [l], by simp [hall, hl], ?_⟩
    rw [eraseDups_append_singleton]
    simp only [List.contains_iff_mem, List.mem_eraseDups]

/-- What occurs in a list is kept. -/
theorem Lists.mem (h : Lists items kept) (ha : a ∈ items) (hl : a.Spells l) : l ∈ kept := by
  obtain ⟨all, hall, hkept⟩ := h
  have hmem : some l ∈ all.map some := by
    rw [← map_label?_eq_iff.mpr hall, ← label?_eq_some_iff.mpr hl]
    exact List.mem_map_of_mem ha
  rw [firstOccurrences_iff.mp hkept, List.mem_eraseDups]
  simpa using hmem

theorem Relists.lists_iff (h : Relists items items') : Lists items kept ↔ Lists items' kept := by
  induction h generalizing kept with
  | nil => rfl
  | entry _ hab ih => simp only [lists_concat_iff, ih, hab.spells_iff]
  | symm _ ih => exact ih.symm
  | @repeated items items' a b _ hb hab ih =>
    rw [← ih, lists_concat_iff]
    constructor
    · rintro ⟨before, l, hbefore, hl, rfl⟩
      rwa [if_pos (hbefore.mem hb (hab.spells_iff.mp hl))]
    · intro hkept
      obtain ⟨l, hl⟩ : ∃ l, b.Spells l := by
        obtain ⟨all, hall, -⟩ := hkept
        exact isName_iff.mp (forall_isName_iff.mpr ⟨all, hall⟩ b hb)
      exact ⟨kept, l, hkept, hab.spells_iff.mpr hl, (if_pos (hkept.mem hb hl)).symm⟩

/-- Texts spell labels when none of them is blank. -/
theorem forall₂_spells_iff {texts : List String} {all : List Label} :
    List.Forall₂ Spells (texts.map .string) all ↔
      all = texts.filterMap Label.ofString? ∧ ∀ s ∈ texts, Text.allBlank s = false := by
  induction texts generalizing all with
  | nil => simp
  | cons s texts ih =>
    have hspells (l : Label) : Spells (.string s) l ↔ Label.ofString? s = some l :=
      label?_eq_some_iff.symm
    simp only [List.map_cons, List.forall₂_cons_left_iff, hspells, ih, List.forall_mem_cons,
      ← Label.isNone_ofString? s]
    cases hs : Label.ofString? s with
    | none => simp
    | some l => simp [hs, and_comm]

theorem lists_strings_iff {texts : List String} :
    Lists (texts.map .string) kept ↔
      kept = (texts.filterMap Label.ofString?).eraseDups ∧
        ∀ s ∈ texts, Text.allBlank s = false := by
  simp only [Lists, forall₂_spells_iff, firstOccurrences_iff, and_right_comm, exists_and_right,
    exists_eq_left]

/-! ## Fields -/

theorem listsAt_iff_forall₂ :
    ListsAt key payload kept ↔ payload.Lacks key ∧ kept = [] ∨
      ∃ items all, payload.get? key = some (.array items) ∧ List.Forall₂ Spells items all ∧
        FirstOccurrences all kept := by
  simp only [ListsAt, Lists, exists_and_left]

/-- The names that a field lists are what is read from it, less the repeats. -/
theorem listsAt_iff_labels (field : String) :
    ListsAt key payload kept ↔
      ∃ all, payload.labels key field = .ok all ∧ kept = all.eraseDups := by
  simp only [listsAt_iff_forall₂, labels_eq_ok_iff_spells, firstOccurrences_iff]
  constructor
  · rintro (⟨hlacks, rfl⟩ | ⟨items, all, hitems, hall, hkept⟩)
    · exact ⟨[], .inl ⟨hlacks, rfl⟩, rfl⟩
    · exact ⟨all, .inr ⟨items, hitems, hall⟩, hkept⟩
  · rintro ⟨all, ⟨hlacks, rfl⟩ | ⟨items, hitems, hall⟩, hkept⟩
    · exact .inl ⟨hlacks, hkept⟩
    · exact .inr ⟨items, all, hitems, hall, hkept⟩

theorem not_lacks_of_array (h : payload.get? key = some (.array items)) : ¬ payload.Lacks key := by
  rintro (h' | h') <;> cases h'.symm.trans h

theorem listsAt_iff (h : payload.get? key = some (.array items)) :
    ListsAt key payload kept ↔ Lists items kept := by
  simp [ListsAt, not_lacks_of_array h, h]

/-- A field that holds nothing lists nothing. -/
theorem Unset.listsAt_iff (h : Unset key (.array []) payload) :
    ListsAt key payload kept ↔ kept = [] := by
  rcases h with hlacks | hempty
  · have harray (items : List Json) : payload.get? key ≠ some (.array items) :=
      fun hitems => not_lacks_of_array hitems hlacks
    simp [ListsAt, hlacks, harray]
  · rw [Json.listsAt_iff hempty, lists_nil_iff]

theorem forall₂_spells_strings (ls : List Label) :
    List.Forall₂ Spells ((ls.map Label.text).map .string) ls := by
  rw [List.map_map, List.forall₂_map_left_iff, List.forall₂_same]
  exact fun l _ => ⟨l.text, rfl, l.trimmed⟩

end ItemMetrics.Json
