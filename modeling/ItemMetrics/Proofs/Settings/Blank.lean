import ItemMetrics.Proofs.Settings.Members
import ItemMetrics.Proofs.Text.Padding

/-! # Blank settings

Settings are refused for the first directory, or else the first required field, that is blank
(`Settings.firstBlank_of_check`), and for nothing else (`Settings.check_eq_ok_iff`). -/

namespace ItemMetrics.Settings

/-- Nothing is left of a text when the blanks at its ends are dropped. -/
def Blank (name : String) : Prop :=
  Text.trim name = ""

/-- The first text that is blank, of the directories in the order of their keys and of the required
fields after them, whose positions are counted from one. -/
inductive FirstBlank (value? : String → Option Toml.Value) : SettingsError → Prop
  | directory {before after : List String} {key name : String} :
    directoryKeys = before ++ key :: after →
    (∀ k ∈ before, ∀ name, value? k = some (.string name) → ¬ Blank name) →
    value? key = some (.string name) → Blank name → FirstBlank value? (.blankDirectory key)
  | field {before after : List String} {name : String} :
    (∀ k ∈ directoryKeys, ∀ name, value? k = some (.string name) → ¬ Blank name) →
    value? "required_item_fields" = some (.array ((before ++ name :: after).map .string)) →
    (∀ other ∈ before, ¬ Blank other) → Blank name →
    FirstBlank value? (.blankField (before.length + 1))

variable {s : Settings} {e : SettingsError} {key name : String} {names : List String}

theorem allBlank_iff : Text.allBlank name = true ↔ Blank name :=
  Text.trim_eq_empty_iff.symm

theorem value?_eq_string_iff : s.value? key = some (.string name) ↔ (key, name) ∈ s.directories := by
  rw [value?_eq_some_iff, members, List.mem_append, List.mem_map, List.mem_singleton]
  constructor
  · rintro (⟨d, hd, h⟩ | h)
    · cases h
      exact hd
    · cases h
  · exact fun h => .inl ⟨_, h, rfl⟩

theorem value?_requiredFields (s : Settings) :
    s.value? "required_item_fields" = some (.array (s.requiredFields.map .string)) :=
  value?_eq_some_iff.mpr (List.mem_append_right _ List.mem_cons_self)

theorem map_fst_directories (s : Settings) : s.directories.map Prod.fst = directoryKeys :=
  rfl

theorem not_blank_of_takes_string (h : Takes (¬ Blank ·) (key, .string name)) : ¬ Blank name := by
  cases h with
  | directory _ hname => exact hname

theorem not_blank_of_takes_array
    (h : Takes (¬ Blank ·) ("required_item_fields", .array (names.map .string))) :
    ∀ name ∈ names, ¬ Blank name := by
  generalize hv : Toml.Value.array (names.map .string) = v at h
  cases h with
  | directory _ _ => cases hv
  | fields hnames => rwa [map_string_injective (Toml.Value.array.inj hv)]

theorem takes_members_iff :
    (∀ m ∈ s.members, Takes (¬ Blank ·) m) ↔
      (∀ d ∈ s.directories, ¬ Blank d.2) ∧ ∀ name ∈ s.requiredFields, ¬ Blank name := by
  constructor
  · intro h
    refine ⟨fun d hd => ?_, ?_⟩
    · exact not_blank_of_takes_string (h _ (value?_eq_some_iff.mp (value?_eq_string_iff.mpr hd)))
    · exact not_blank_of_takes_array (h _ (value?_eq_some_iff.mp s.value?_requiredFields))
  · rintro ⟨hdirectories, hfields⟩ m hm
    rcases List.mem_append.mp hm with hm | hm
    · obtain ⟨d, hd, rfl⟩ := List.mem_map.mp hm
      exact .directory (List.mem_map_of_mem hd) (hdirectories d hd)
    · rw [List.mem_singleton.mp hm]
      exact .fields hfields

/-- Settings pass when none of their texts is blank. -/
theorem check_eq_ok_iff : s.check = .ok () ↔ ∀ m ∈ s.members, Takes (¬ Blank ·) m := by
  rw [takes_members_iff]
  simp only [← allBlank_iff, check]
  constructor
  · intro h
    split at h
    · cases h
    · next hdirectories =>
      split at h
      · cases h
      · next hfields =>
        exact ⟨List.find?_eq_none.mp hdirectories, by simpa using hfields⟩
  · rintro ⟨hdirectories, hfields⟩
    rw [List.find?_eq_none.mpr hdirectories, List.findIdx?_eq_none_iff.mpr (by simpa using hfields)]

theorem firstBlank_directory {before after : List (String × String)} {d : String × String}
    (hdirectories : s.directories = before ++ d :: after) (hbefore : ∀ d ∈ before, ¬ Blank d.2)
    (hblank : Blank d.2) : FirstBlank s.value? (.blankDirectory d.1) := by
  have hkeys : directoryKeys = before.map Prod.fst ++ d.1 :: after.map Prod.fst := by
    rw [← map_fst_directories s, hdirectories, List.map_append, List.map_cons]
  have hd : d ∈ s.directories := hdirectories ▸ List.mem_append_right _ List.mem_cons_self
  refine .directory hkeys (fun k hk name hname => ?_) (value?_eq_string_iff.mpr hd) hblank
  obtain ⟨d', hd', rfl⟩ := List.mem_map.mp hk
  have hvalue : s.value? d'.1 = some (.string d'.2) :=
    value?_eq_string_iff.mpr (hdirectories ▸ List.mem_append_left _ hd')
  rw [hvalue] at hname
  cases hname
  exact hbefore d' hd'

theorem firstBlank_field {i : Nat} (hdirectories : ∀ d ∈ s.directories, ¬ Blank d.2)
    (hi : i < s.requiredFields.length) (hbefore : ∀ name ∈ s.requiredFields.take i, ¬ Blank name)
    (hblank : Blank s.requiredFields[i]) : FirstBlank s.value? (.blankField (i + 1)) := by
  have hfields : s.requiredFields =
      s.requiredFields.take i ++ s.requiredFields[i] :: s.requiredFields.drop (i + 1) := by
    rw [← List.drop_eq_getElem_cons hi, List.take_append_drop]
  have hlength : (s.requiredFields.take i).length = i := List.length_take_of_le hi.le
  have hvalue := s.value?_requiredFields
  rw [hfields] at hvalue
  rw [← hlength]
  refine .field (fun k _ name hname => ?_) hvalue hbefore hblank
  exact hdirectories _ (value?_eq_string_iff.mp hname)

/-- Settings are refused for the first text of them that is blank. -/
theorem firstBlank_of_check (h : s.check = .error e) : FirstBlank s.value? e := by
  unfold check at h
  split at h
  · next d hd =>
    cases h
    obtain ⟨hblank, before, after, hdirectories, hbefore⟩ := List.find?_eq_some_iff_append.mp hd
    refine firstBlank_directory hdirectories (fun d hd => ?_) (allBlank_iff.mp hblank)
    rw [← allBlank_iff]
    simpa using hbefore d hd
  · next hnone =>
    have hdirectories : ∀ d ∈ s.directories, ¬ Blank d.2 := fun d hd => by
      rw [← allBlank_iff]
      exact List.find?_eq_none.mp hnone d hd
    split at h
    · next i hi =>
      cases h
      obtain ⟨hlt, hblank, hbefore⟩ := List.findIdx?_eq_some_iff_getElem.mp hi
      refine firstBlank_field hdirectories hlt (fun name hname => ?_) (allBlank_iff.mp hblank)
      obtain ⟨j, hj, rfl⟩ := List.mem_take_iff_getElem.mp hname
      rw [← allBlank_iff]
      exact hbefore j (by omega)
    · cases h

end ItemMetrics.Settings
