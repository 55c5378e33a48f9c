import ItemMetrics.Settings
import ItemMetrics.Proofs.Keys

/-! # The members of a settings file

The members of a file make settings when each has a known key and a value of the type that its key
takes. The settings then have the values that stand in the file, and the default values at the other
keys (`Settings.ofMembers?_eq_some_iff`). -/

namespace ItemMetrics.Settings

/-- The keys at which directories are named, in the order in which they are checked. -/
def directoryKeys : List String := ["schema_root", "types_dir", "derived_dir", "items_dir"]

/-- The settings spelled out as the members of a file. -/
def members (s : Settings) : List (String × Toml.Value) :=
  s.directories.map (fun d => (d.1, .string d.2)) ++
    [("required_item_fields", .array (s.requiredFields.map .string))]

/-- The value that settings have at a key. -/
def value? (s : Settings) (key : String) : Option Toml.Value :=
  s.members.lookup key

/-- A member that settings can take: one with the key of a directory and a text, or one with the key
of the required fields and an array of texts. Of each text `p` holds. -/
inductive Takes (p : String → Prop) : String × Toml.Value → Prop
  | directory {key name : String} : key ∈ directoryKeys → p name → Takes p (key, .string name)
  | fields {names : List String} : (∀ name ∈ names, p name) →
    Takes p ("required_item_fields", .array (names.map .string))

variable {s s' t : Settings} {key : String} {v : Toml.Value}
  {ms : List (String × Toml.Value)} {p : String → Prop}

/-! ## Values -/

theorem nodup_members (s : Settings) : (s.members.map Prod.fst).Nodup := by
  show (directoryKeys ++ ["required_item_fields"]).Nodup
  decide

theorem value?_eq_some_iff : s.value? key = some v ↔ (key, v) ∈ s.members :=
  lookup_eq_some_iff_mem s.nodup_members

theorem value?_eq (s : Settings) (key : String) :
    s.value? key =
      if key = "schema_root" then some (.string s.schemaRoot)
      else if key = "types_dir" then some (.string s.typesDir)
      else if key = "derived_dir" then some (.string s.derivedDir)
      else if key = "items_dir" then some (.string s.itemsDir)
      else if key = "required_item_fields" then some (.array (s.requiredFields.map .string))
      else none := by
  simp only [value?, members, directories, List.map_cons, List.map_nil, List.cons_append,
    List.nil_append, lookup_cons_eq_ite, List.lookup_nil]

theorem map_string_injective : Function.Injective (List.map Toml.Value.string) :=
  List.map_injective_iff.mpr fun _ _ => Toml.Value.string.inj

/-- Settings seen from one directory are the same when they have the same values. -/
theorem eq_of_values (hbase : s.base = t.base) (h : ∀ key, s.value? key = t.value? key) : s = t := by
  have hroot : s.schemaRoot = t.schemaRoot := by simpa [value?_eq] using h "schema_root"
  have htypes : s.typesDir = t.typesDir := by simpa [value?_eq] using h "types_dir"
  have hderived : s.derivedDir = t.derivedDir := by simpa [value?_eq] using h "derived_dir"
  have hitems : s.itemsDir = t.itemsDir := by simpa [value?_eq] using h "items_dir"
  have hfields : s.requiredFields = t.requiredFields :=
    map_string_injective (by simpa [value?_eq] using h "required_item_fields")
  cases s
  cases t
  simp_all

/-! ## Taking one member -/

theorem string?_eq_some_iff {name : String} : string? v = some name ↔ v = .string name := by
  cases v <;> simp [string?]

theorem mapM_string?_eq_some_iff {values : List Toml.Value} {names : List String} :
    values.mapM string? = some names ↔ values = names.map .string := by
  induction values generalizing names with
  | nil => cases names <;> simp
  | cons v values ih =>
    rw [List.mapM_cons]
    simp only [Option.bind_eq_bind, Option.bind_eq_some_iff, string?_eq_some_iff, ih]
    cases names <;> simp

theorem strings?_eq_some_iff {names : List String} :
    strings? v = some names ↔ v = .array (names.map .string) := by
  cases v <;> simp [strings?, mapM_string?_eq_some_iff]

/-- A member that is taken puts its value at its key and changes nothing else. -/
theorem takes_of_set? (h : set? s (key, v) = some s') :
    Takes (fun _ => True) (key, v) ∧ s'.base = s.base ∧
      ∀ k, s'.value? k = if k = key then some v else s.value? k := by
  simp only [value?_eq]
  unfold set? at h
  dsimp only at h
  split_ifs at h with hroot htypes hderived hitems hkey <;>
    obtain ⟨x, hx, rfl⟩ := Option.map_eq_some_iff.mp h
  -- the required fields first, as they are read in another way than the four directories
  pick_goal 5
  · rw [strings?_eq_some_iff] at hx
    subst hkey hx
    refine ⟨.fields fun _ _ => trivial, rfl, fun k => ?_⟩
    dsimp only
    split_ifs <;> first | rfl | simp_all
  all_goals
    rw [string?_eq_some_iff] at hx
    subst key hx
    refine ⟨.directory (by simp [directoryKeys]) trivial, rfl, fun k => ?_⟩
    dsimp only
    split_ifs <;> first | rfl | simp_all

theorem exists_set? (s : Settings) (h : Takes p (key, v)) : ∃ s', set? s (key, v) = some s' := by
  cases h with
  | directory hkey _ =>
    simp only [directoryKeys, List.mem_cons, List.not_mem_nil, or_false] at hkey
    rcases hkey with rfl | rfl | rfl | rfl <;> exact ⟨_, rfl⟩
  | fields _ => exact ⟨_, Option.map_eq_some_iff.mpr ⟨_, strings?_eq_some_iff.mpr rfl, rfl⟩⟩

/-! ## Taking all members -/

theorem lookup_cons_or {value? value?' : String → Option Toml.Value} (hkey : key ∉ ms.map Prod.fst)
    (h : ∀ k, value?' k = if k = key then some v else value? k) (k : String) :
    (((key, v) :: ms).lookup k).or (value? k) = (ms.lookup k).or (value?' k) := by
  rw [lookup_cons_eq_ite, h]
  by_cases hk : k = key
  · have hnone : ms.lookup key = none := by
      refine List.lookup_eq_none_iff.mpr fun m hm => bne_iff_ne.mpr ?_
      rintro rfl
      exact hkey (List.mem_map_of_mem hm)
    simp [hk, hnone]
  · simp [hk]

theorem foldlM_set?_eq_some_iff (hnodup : (ms.map Prod.fst).Nodup) :
    ms.foldlM set? s = some s' ↔
      (∀ m ∈ ms, Takes (fun _ => True) m) ∧ s'.base = s.base ∧
        ∀ key, s'.value? key = (ms.lookup key).or (s.value? key) := by
  induction ms generalizing s with
  | nil =>
    constructor
    · intro h
      cases h
      exact ⟨fun m hm => absurd hm List.not_mem_nil, rfl, fun _ => rfl⟩
    · rintro ⟨-, hbase, hvalues⟩
      rw [eq_of_values hbase hvalues]
      rfl
  | cons m ms ih =>
    obtain ⟨key, v⟩ := m
    obtain ⟨hkey, hrest⟩ := List.nodup_cons.mp hnodup
    rw [List.foldlM_cons, List.forall_mem_cons]
    constructor
    · intro h
      obtain ⟨t, ht, h⟩ := Option.bind_eq_some_iff.mp h
      obtain ⟨htakes, htbase, htvalues⟩ := takes_of_set? ht
      obtain ⟨hall, hbase, hvalues⟩ := (ih hrest).mp h
      refine ⟨⟨htakes, hall⟩, hbase.trans htbase, fun k => ?_⟩
      rw [hvalues, lookup_cons_or hkey htvalues]
    · rintro ⟨⟨htakes, hall⟩, hbase, hvalues⟩
      obtain ⟨t, ht⟩ := exists_set? s htakes
      obtain ⟨-, htbase, htvalues⟩ := takes_of_set? ht
      refine Option.bind_eq_some_iff.mpr ⟨t, ht, (ih hrest).mpr ⟨hall, ?_, fun k => ?_⟩⟩
      · exact hbase.trans htbase.symm
      · rw [hvalues, lookup_cons_or hkey htvalues]

theorem exists_ofMembers? (base : String) (h : ∀ m ∈ ms, Takes p m) :
    ∃ s, ofMembers? base ms = some s := by
  suffices ∀ t, ∃ s, ms.foldlM set? t = some s from this (default base)
  induction ms with
  | nil => exact fun t => ⟨t, rfl⟩
  | cons m ms ih =>
    intro t
    obtain ⟨hm, hms⟩ := List.forall_mem_cons.mp h
    obtain ⟨t', ht'⟩ := exists_set? t hm
    obtain ⟨s, hs⟩ := ih hms t'
    exact ⟨s, Option.bind_eq_some_iff.mpr ⟨t', ht', hs⟩⟩

/-- The members of a file make settings when they can be taken, and where a key is missing the
settings have the default value. -/
theorem ofMembers?_eq_some_iff {base : String} (hnodup : (ms.map Prod.fst).Nodup) :
    ofMembers? base ms = some s ↔
      (∀ m ∈ ms, Takes (fun _ => True) m) ∧ s.base = base ∧
        ∀ key, s.value? key = (ms.lookup key).or ((default base).value? key) :=
  foldlM_set?_eq_some_iff hnodup

end ItemMetrics.Settings
