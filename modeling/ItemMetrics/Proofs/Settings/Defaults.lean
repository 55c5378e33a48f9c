import ItemMetrics.Proofs.Settings.Blank
import ItemMetrics.Proofs.Toml.Keys

/-! # The default settings

The defaults stand in two places: in the values of keys that a file does not set, and in the text of
the file that spells them out. Reading the text gives the values (`Settings.decode_defaultText`), and
none of them is blank, so that what is blank stands in a file (`Settings.FirstBlank.of_or_default`). -/

namespace ItemMetrics.Settings

variable {base path text : String} {ms : List (String × Toml.Value)} {e : SettingsError}

theorem not_blank_default (base : String) : ∀ m ∈ (default base).members, Takes (¬ Blank ·) m := by
  have hdirectories : ∀ d ∈ (default "").directories, ¬ Text.allBlank d.2 = true := by decide
  have hfields : ∀ name ∈ (default "").requiredFields, ¬ Text.allBlank name = true := by decide
  simp only [allBlank_iff] at hdirectories hfields
  exact takes_members_iff.mpr ⟨hdirectories, hfields⟩

/-- What is blank where the default values stand at missing keys is blank at the others. -/
theorem FirstBlank.of_or_default
    (h : FirstBlank (fun key => (ms.lookup key).or ((default base).value? key)) e) :
    FirstBlank (fun key => ms.lookup key) e := by
  have hpresent (key : String) {v : Toml.Value} (hv : ms.lookup key = some v) :
      (ms.lookup key).or ((default base).value? key) = some v := by
    rw [hv, Option.some_or]
  cases h with
  | directory hkeys hbefore hname hblank =>
    refine .directory hkeys (fun k hk name hname => hbefore k hk name (hpresent k hname)) ?_ hblank
    rcases Option.or_eq_some_iff.mp hname with hname | ⟨-, hname⟩
    · exact hname
    · have htakes := not_blank_default base _ (value?_eq_some_iff.mp hname)
      exact absurd hblank (not_blank_of_takes_string htakes)
  | @field before after name hdirectories hfields hbefore hblank =>
    have hvalue : ms.lookup "required_item_fields" =
        some (.array ((before ++ name :: after).map .string)) := by
      rcases Option.or_eq_some_iff.mp hfields with hfields | ⟨-, hfields⟩
      · exact hfields
      · have htakes := not_blank_default base _ (value?_eq_some_iff.mp hfields)
        have hname : name ∈ before ++ name :: after := List.mem_append_right _ List.mem_cons_self
        exact absurd hblank (not_blank_of_takes_array htakes name hname)
    exact .field (fun k hk name hname => hdirectories k hk name (hpresent k hname)) hvalue hbefore
      hblank

/-! ## The text of the defaults -/

theorem toList_defaultText :
    defaultText.toList = defaultLines.flatMap fun line => line.toList ++ ['\n'] := by
  simp [defaultText, String.toList_join, List.flatMap_map]

theorem ofMembers?_defaultText :
    (Toml.read defaultText).toOption.bind (ofMembers? "") = some (default "") := by
  -- the characters are laid out line by line, as the text itself takes long to unfold
  rw [Toml.read, toList_defaultText]
  simp only [defaultLines, List.flatMap_cons, List.flatMap_nil, String.reduceToList,
    List.cons_append, List.nil_append, List.append_nil]
  decide +kernel

theorem exists_read_defaultText (base : String) :
    ∃ ms, Toml.read defaultText = .ok ms ∧ ofMembers? base ms = some (default base) := by
  obtain ⟨ms, hread, hmembers⟩ := Option.bind_eq_some_iff.mp ofMembers?_defaultText
  rw [Except.toOption_eq_some_iff] at hread
  have hnodup := Toml.nodup_of_read hread
  obtain ⟨htakes, -, hvalues⟩ := (ofMembers?_eq_some_iff hnodup).mp hmembers
  exact ⟨ms, hread, (ofMembers?_eq_some_iff hnodup).mpr ⟨htakes, rfl, hvalues⟩⟩

theorem decode_of_read (h : Toml.read text = .ok ms) :
    decode path base text =
      match ofMembers? base ms with
      | none => .error (.badShape path)
      | some s => .ok s := by
  rw [decode, h]
  rfl

theorem parse_of_read (h : Toml.read text = .ok ms) :
    parse path base text =
      match ofMembers? base ms with
      | none => .error (.badShape path)
      | some s => s.check >>= fun _ => .ok s := by
  rw [parse, decode_of_read h]
  cases ofMembers? base ms <;> rfl

theorem parse_eq_default (h : Toml.read text = .ok ms) (hms : ofMembers? base ms = some (default base)) :
    parse path base text = .ok (default base) := by
  rw [parse_of_read h, hms]
  exact Except.bind_eq_ok_iff.mpr ⟨(), check_eq_ok_iff.mpr (not_blank_default base), rfl⟩

/-- The text that spells out the defaults gives the default settings. -/
theorem decode_defaultText (path base : String) :
    decode path base defaultText = .ok (default base) := by
  obtain ⟨ms, hread, hms⟩ := exists_read_defaultText base
  rw [decode_of_read hread, hms]

theorem parse_defaultText (path base : String) :
    parse path base defaultText = .ok (default base) := by
  obtain ⟨ms, hread, hms⟩ := exists_read_defaultText base
  exact parse_eq_default hread hms

theorem parse_empty (path base : String) : parse path base "" = .ok (default base) := by
  have hread : Toml.read "" = .ok [] := rfl
  exact parse_eq_default hread rfl

end ItemMetrics.Settings
