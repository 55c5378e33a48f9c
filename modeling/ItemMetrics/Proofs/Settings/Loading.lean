import ItemMetrics.Command.Run
import ItemMetrics.Proofs.Files.Parent
import ItemMetrics.Proofs.Settings.Defaults

/-! # Loading the settings

A run takes its settings from the members of the file that it is given or that stands in the working
directory. Without a file, with an empty one and with the one that spells out the defaults it has the
default settings (`Settings.load_settings`). -/

namespace ItemMetrics

namespace Settings

/-- The path of the settings file of a run. -/
def source (workingDir : String) (given : Option String) : String :=
  given.getD (Path.join workingDir fileName)

/-- What a settings file with some members says of the settings: they are refused unless every member
can be taken and no text is blank, and otherwise they hold what stands in the file and the default
values at all other keys. -/
structure Follows (ms : List (String × Toml.Value)) (path : String)
    (loaded : Except SettingsError Settings) : Prop where
  accepted_iff : (∃ s, loaded = .ok s) ↔ ∀ m ∈ ms, Takes (¬ Blank ·) m
  misshapen : ¬ (∀ m ∈ ms, Takes (fun _ => True) m) → loaded = .error (.badShape path)
  blank : (∀ m ∈ ms, Takes (fun _ => True) m) → ¬ (∀ m ∈ ms, Takes (¬ Blank ·) m) →
    ∃ e, FirstBlank (fun key => ms.lookup key) e ∧ loaded = .error e
  values : ∀ s, loaded = .ok s →
    ∀ key, s.value? key = (ms.lookup key).or ((default s.base).value? key)

/-- The paths of settings are the names that they hold, each joined to the directory above. -/
structure Joined (s : Settings) : Prop where
  schema : ∃ name, s.value? "schema_root" = some (.string name) ∧
    s.schemaPath = Path.join s.base name
  types : ∃ name, s.value? "types_dir" = some (.string name) ∧
    s.typesPath = Path.join s.schemaPath name
  derived : ∃ name, s.value? "derived_dir" = some (.string name) ∧
    s.derivedPath = Path.join s.schemaPath name
  items : ∃ name, s.value? "items_dir" = some (.string name) ∧
    s.itemsPath = Path.join s.base name

/-- The directory of a path: the path without its last part. -/
def Holds (dir path : String) : Prop :=
  Path.parent? path = some dir ∧ ∃ last, Path.parts path = Path.parts dir ++ [last]

variable {tree : FileTree} {workingDir path base text : String} {given : Option String}
  {s : Settings} {ms : List (String × Toml.Value)}

theorem joined (s : Settings) : s.Joined where
  schema := ⟨_, value?_eq_string_iff.mpr (by simp [directories]), rfl⟩
  types := ⟨_, value?_eq_string_iff.mpr (by simp [directories]), rfl⟩
  derived := ⟨_, value?_eq_string_iff.mpr (by simp [directories]), rfl⟩
  items := ⟨_, value?_eq_string_iff.mpr (by simp [directories]), rfl⟩

/-! ## A file with some members -/

theorem parse_eq_ok_iff (h : Toml.read text = .ok ms) :
    parse path base text = .ok s ↔ ofMembers? base ms = some s ∧ s.check = .ok () := by
  rw [parse_of_read h]
  cases hms : ofMembers? base ms with
  | none => simp
  | some t =>
    simp only [Except.bind_eq_ok_iff, Except.ok.injEq, Option.some.injEq]
    constructor
    · rintro ⟨_, hcheck, rfl⟩
      exact ⟨rfl, hcheck⟩
    · rintro ⟨rfl, hcheck⟩
      exact ⟨(), hcheck, rfl⟩

/-- Settings that a file makes pass when no text in the file is blank. -/
theorem check_of_ofMembers? (hnodup : (ms.map Prod.fst).Nodup) (h : ofMembers? base ms = some s) :
    s.check = .ok () ↔ ∀ m ∈ ms, Takes (¬ Blank ·) m := by
  obtain ⟨-, -, hvalues⟩ := (ofMembers?_eq_some_iff hnodup).mp h
  rw [check_eq_ok_iff]
  constructor
  · rintro hmembers ⟨key, v⟩ hm
    refine hmembers _ (value?_eq_some_iff.mp ?_)
    rw [hvalues, (lookup_eq_some_iff_mem hnodup).mpr hm, Option.some_or]
  · rintro hms ⟨key, v⟩ hm
    have hvalue := value?_eq_some_iff.mpr hm
    rw [hvalues] at hvalue
    rcases Option.or_eq_some_iff.mp hvalue with hvalue | ⟨-, hvalue⟩
    · exact hms _ ((lookup_eq_some_iff_mem hnodup).mp hvalue)
    · exact not_blank_default base _ (value?_eq_some_iff.mp hvalue)

theorem parse_follows (path base : String) (h : Toml.read text = .ok ms) :
    Follows ms path (parse path base text) := by
  have hnodup := Toml.nodup_of_read h
  refine ⟨⟨?_, ?_⟩, fun hshape => ?_, fun htakes hblank => ?_, fun s hs => ?_⟩
  · rintro ⟨s, hs⟩
    obtain ⟨hms, hcheck⟩ := (parse_eq_ok_iff h).mp hs
    exact (check_of_ofMembers? hnodup hms).mp hcheck
  · intro hms
    obtain ⟨s, hs⟩ := exists_ofMembers? base hms
    exact ⟨s, (parse_eq_ok_iff h).mpr ⟨hs, (check_of_ofMembers? hnodup hs).mpr hms⟩⟩
  · have hnone : ofMembers? base ms = none := by
      refine Option.eq_none_iff_forall_ne_some.mpr fun s hs => hshape ?_
      exact ((ofMembers?_eq_some_iff hnodup).mp hs).1
    rw [parse_of_read h, hnone]
  · obtain ⟨s, hs⟩ := exists_ofMembers? base htakes
    have hvalues := funext ((ofMembers?_eq_some_iff hnodup).mp hs).2.2
    rw [parse_of_read h, hs]
    cases hcheck : s.check with
    | ok _ => exact absurd ((check_of_ofMembers? hnodup hs).mp hcheck) hblank
    | error e =>
      have hfirst := FirstBlank.of_or_default (hvalues ▸ firstBlank_of_check hcheck)
      exact ⟨e, hfirst, Except.bind_eq_error_iff.mpr (.inl hcheck)⟩
  · obtain ⟨hms, -⟩ := (parse_eq_ok_iff h).mp hs
    exact ((ofMembers?_eq_some_iff hnodup).mp hms).2.2

/-! ## Where the file is -/

theorem load_eq (tree : FileTree) (workingDir : String) (given : Option String) :
    load tree workingDir given =
      match tree.readText (source workingDir given) with
      | .ok text =>
        parse (source workingDir given)
          ((Path.parent? (source workingDir given)).getD workingDir) text
      | .error .notFound =>
        match given with
        | none => decode (source workingDir given) workingDir defaultText
        | some _ => .error (.unreadable (source workingDir given) .notFound)
      | .error cause => .error (.unreadable (source workingDir given) cause) :=
  rfl

theorem load_of_readText (h : tree.readText (source workingDir given) = .ok text) :
    ∃ dir, Holds dir (source workingDir given) ∧
      load tree workingDir given = parse (source workingDir given) dir text := by
  obtain ⟨dir, hdir⟩ := FileTree.exists_parent?_of_readText h
  refine ⟨dir, ⟨hdir, Path.parts_of_parent? hdir⟩, ?_⟩
  rw [load_eq, h, hdir]
  rfl

/-- A name that is joined to the working directory leads to what stands there. -/
theorem locate_join_here (tree : FileTree) (n : FileName) :
    tree.locate (Path.join "." n.text) = tree.locate n.text := by
  have hjoin : Path.join "." n.text ≠ "" := by
    intro hempty
    have hparts := Path.parts_join "." n
    rw [hempty] at hparts
    simp [show Path.parts "" = [] from rfl] at hparts
  have hhere : Path.parts "." = [.here] := rfl
  rw [FileTree.locate, FileTree.locate, if_neg hjoin, if_neg n.text_ne.1, Path.parts_join,
    Path.parts_text, hhere, List.singleton_append, List.foldlM_cons]
  rfl

/-- The directory of the file that is looked for in the working directory is that directory. -/
theorem parts_of_holds {dir : String} (h : Holds dir (source workingDir none)) :
    Path.parts dir = Path.parts workingDir := by
  obtain ⟨-, last, hlast⟩ := h
  have hjoin := Path.parts_join workingDir ⟨fileName, by decide⟩
  exact (List.append_inj_left' (hlast.symm.trans hjoin) rfl)

/-! ## The file that spells out the defaults -/

theorem load_of_defaultText (h : tree.readText (source workingDir given) = .ok text)
    (htext : text = "" ∨ text = defaultText) :
    ∃ dir, Holds dir (source workingDir given) ∧ load tree workingDir given = .ok (default dir) := by
  obtain ⟨dir, hdir, hload⟩ := load_of_readText h
  refine ⟨dir, hdir, hload.trans ?_⟩
  rcases htext with rfl | rfl
  · exact parse_empty _ _
  · exact parse_defaultText _ _

theorem readText_files_of_writeDefaults {target : Option String} {force : Bool}
    (h : (Command.writeDefaults tree target force).result = .ok ()) :
    ((Command.writeDefaults tree target force).files tree).readText (target.getD fileName) =
      .ok defaultText := by
  unfold Command.writeDefaults at h ⊢
  dsimp only at h ⊢
  split at h
  · cases h
  · next hnew =>
    rw [if_neg hnew]
    split at h
    · next tree' hwrite =>
      simp only [hwrite, Outcome.files]
      exact (FileTree.writes_of_write hwrite).readText
    · cases h

theorem readText_join_here (tree : FileTree) :
    tree.readText (Path.join "." fileName) = tree.readText fileName := by
  have hlocate := locate_join_here tree ⟨fileName, by decide⟩
  have hends : Path.endsAsDirectory (Path.join "." fileName) = Path.endsAsDirectory fileName := by
    decide +kernel
  simp only [FileTree.readText, FileTree.stat, hlocate, hends]

/-! ## Loading -/

theorem base_of_parse (h : parse path base text = .ok s) : s.base = base := by
  obtain ⟨t, hdecode, -⟩ := Except.bind_eq_ok_iff.mp h
  obtain ⟨ms, hread, -⟩ := Except.bind_eq_ok_iff.mp hdecode
  rw [Except.mapError_eq_ok_iff] at hread
  obtain ⟨hms, -⟩ := (parse_eq_ok_iff hread).mp h
  exact ((ofMembers?_eq_some_iff (Toml.nodup_of_read hread)).mp hms).2.1

theorem holds_of_load (hfile : tree.readText (source workingDir given) = .ok text)
    (h : load tree workingDir given = .ok s) : Holds s.base (source workingDir given) := by
  obtain ⟨dir, hdir, hload⟩ := load_of_readText hfile
  rwa [base_of_parse (hload.symm.trans h)]

theorem load_of_missing (h : tree.readText (source workingDir none) = .error .notFound) :
    load tree workingDir none = .ok (default workingDir) := by
  rw [load_eq, h]
  exact decode_defaultText _ _

/-- Without a given file the settings are seen from the working directory. -/
theorem parts_of_load (h : load tree workingDir none = .ok s) :
    Path.parts s.base = Path.parts workingDir := by
  cases hfile : tree.readText (source workingDir none) with
  | ok text => exact parts_of_holds (holds_of_load hfile h)
  | error cause =>
    cases cause with
    | notFound =>
      cases (load_of_missing hfile).symm.trans h
      rfl
    | _ =>
      rw [load_eq, hfile] at h
      cases h

/-- A run that names the file that spells out the defaults, or finds it where it starts, has the
default settings. -/
theorem load_files_of_writeDefaults {target : Option String} {force : Bool}
    (h : (Command.writeDefaults tree target force).result = .ok ())
    (hdir : target = none → workingDir = ".") :
    ∃ dir, Holds dir (source workingDir target) ∧
      load ((Command.writeDefaults tree target force).files tree) workingDir target =
        .ok (default dir) := by
  refine load_of_defaultText ?_ (.inr rfl)
  have hfile := readText_files_of_writeDefaults h
  cases target with
  | none => rwa [hdir rfl, source, Option.getD_none, readText_join_here]
  | some target => exact hfile

/-- The settings of a run: what the members of its settings file say, seen from the directory of the
file, and the default settings where there is no file. A file that is empty, or spells out the
defaults, says nothing else. -/
structure Loads (tree : FileTree) (workingDir : String) (given : Option String)
    (loaded : Except SettingsError Settings) : Prop where
  follows : ∀ text ms, tree.readText (source workingDir given) = .ok text →
    Toml.read text = .ok ms → Follows ms (source workingDir given) loaded
  holds : ∀ text s, tree.readText (source workingDir given) = .ok text → loaded = .ok s →
    Holds s.base (source workingDir given)
  here : ∀ s, given = none → loaded = .ok s → Path.parts s.base = Path.parts workingDir
  joined : ∀ s, loaded = .ok s → s.Joined
  missing : given = none → tree.readText (source workingDir given) = .error .notFound →
    loaded = .ok (default workingDir)
  defaults : ∀ text, tree.readText (source workingDir given) = .ok text →
    text = "" ∨ text = defaultText →
    ∃ dir, Holds dir (source workingDir given) ∧ loaded = .ok (default dir)

/-- A run takes its settings from its settings file, and after the defaults have been written to the
file it has the default settings. -/
theorem load_settings (tree : FileTree) (workingDir : String) (given : Option String) :
    Loads tree workingDir given (load tree workingDir given) ∧
      ∀ force, (Command.writeDefaults tree given force).result = .ok () →
        (given = none → workingDir = ".") →
        ∃ dir, Holds dir (source workingDir given) ∧
          load ((Command.writeDefaults tree given force).files tree) workingDir given =
            .ok (default dir) := by
  refine ⟨⟨fun text ms hfile hread => ?_, fun text s => holds_of_load, ?_, fun s _ => s.joined, ?_,
    fun text => load_of_defaultText⟩, fun force => load_files_of_writeDefaults⟩
  · obtain ⟨dir, -, hload⟩ := load_of_readText hfile
    exact hload ▸ parse_follows _ dir hread
  · rintro s rfl h
    exact parts_of_load h
  · rintro rfl h
    exact load_of_missing h

/-- A directory with a settings file in it that names another directory of types. -/
def sampleTree : FileTree :=
  .addFile .empty "conf/run.toml" (.text "types_dir = 'kinds'")

theorem load_settings_sample :
    ∃ ms s, sampleTree.readText "conf/run.toml" = .ok "types_dir = 'kinds'" ∧
      Toml.read "types_dir = 'kinds'" = .ok ms ∧
      load sampleTree "." (some "conf/run.toml") = .ok s ∧ (∀ m ∈ ms, Takes (¬ Blank ·) m) ∧
      Holds s.base "conf/run.toml" ∧ s.typesPath = "conf/schema/kinds" ∧
      s.itemsPath = "conf/items" := by
  have hfile : sampleTree.readText "conf/run.toml" = .ok "types_dir = 'kinds'" := by
    decide +kernel
  have hparsed : (Toml.read "types_dir = 'kinds'").toOption.isSome = true := by decide +kernel
  have hload : load sampleTree "." (some "conf/run.toml") =
      .ok { default "conf" with typesDir := "kinds" } := by
    decide +kernel
  obtain ⟨ms, hms⟩ := Option.isSome_iff_exists.mp hparsed
  have hread := Except.toOption_eq_some_iff.mp hms
  obtain ⟨hloads, -⟩ := load_settings sampleTree "." (some "conf/run.toml")
  have hfollows := hloads.follows _ ms hfile hread
  exact ⟨ms, _, hfile, hread, hload, hfollows.accepted_iff.mp ⟨_, hload⟩,
    hloads.holds _ _ hfile hload, by decide +kernel, by decide +kernel⟩

end Settings
end ItemMetrics
