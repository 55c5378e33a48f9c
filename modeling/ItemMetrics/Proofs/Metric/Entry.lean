import ItemMetrics.Proofs.Document.Listing

/-! # The entries of a definition document

An entry that is well-formed declares one metric (`Metric.parse_eq_ok_iff`), and any other is
refused for the first of its fields that is at fault (`Metric.parse_eq_error_iff`). -/

namespace ItemMetrics.Metric

/-- The configuration of an entry is absent, null or an object. -/
def HoldsConfig (entry : Json) : Prop :=
  entry.Lacks "config" ∨ ∃ config, entry.get? "config" = some (.object config)

/-- What an entry has to look like. -/
structure WellFormed (entry : Json) : Prop where
  isObject : entry.isObject = true
  key : entry.HoldsName "key"
  description : entry.HoldsName "description"
  operation : entry.HoldsName "operation"
  config : HoldsConfig entry
  dependsOn : entry.HoldsNames "depends_on"

/-- The metric that an entry declares. -/
structure Declared (entry : Json) (m : Metric) : Prop where
  key : entry.HoldsLabel "key" m.key
  description : entry.HoldsLabel "description" m.description
  operation : entry.HoldsLabel "operation" m.operation
  config : entry.Lacks "config" ∧ m.config = [] ∨ entry.get? "config" = some (.object m.config)
  dependsOn : entry.Lacks "depends_on" ∧ m.dependsOn = [] ∨
    ∃ items all, entry.get? "depends_on" = some (.array items) ∧
      List.Forall₂ Json.Spells items all ∧ FirstOccurrences all m.dependsOn

/-- A metric in an error, once its key is known. -/
def owner (key : Label) (source : String) : String :=
  s!"metric '{key.text}' in {source}"

/-- The first fault of an entry. -/
inductive Fault (payload : Json) (entry source : String) : DefinitionError → Prop
  | key : ¬ payload.HoldsName "key" →
    Fault payload entry source (.field (.notText "key" s!"{entry} in {source}"))
  | description {k : Label} : payload.HoldsLabel "key" k → ¬ payload.HoldsName "description" →
    Fault payload entry source (.field (.notText "description" (owner k source)))
  | operation {k : Label} : payload.HoldsLabel "key" k → payload.HoldsName "description" →
    ¬ payload.HoldsName "operation" →
    Fault payload entry source (.field (.notText "operation" (owner k source)))
  | config {k : Label} : payload.HoldsLabel "key" k → payload.HoldsName "description" →
    payload.HoldsName "operation" → ¬ HoldsConfig payload →
    Fault payload entry source (.configNotMapping k.text source)
  | dependsOn {k : Label} {e : FieldError} : payload.HoldsLabel "key" k →
    payload.HoldsName "description" → payload.HoldsName "operation" → HoldsConfig payload →
    payload.Unlisted "depends_on" s!"'depends_on' for {owner k source}" e →
    Fault payload entry source (.field e)

variable {payload : Json} {entry source : String} {m : Metric} {config : Json.Members}
  {e : DefinitionError}

/-! ## The configuration -/

theorem config?_eq_some_iff :
    config? payload = some config ↔
      payload.Lacks "config" ∧ config = [] ∨ payload.get? "config" = some (.object config) := by
  unfold config? Json.Lacks
  split
  · next h => simp [h, eq_comm]
  · next h => simp [h, eq_comm]
  · next ms h => simp [h]
  · next value hnull hobject h =>
    simp only [h, reduceCtorEq, Option.some.injEq, false_or, false_iff]
    rintro (⟨rfl, -⟩ | rfl)
    · exact hnull rfl
    · exact hobject config rfl

theorem holdsConfig_iff : HoldsConfig payload ↔ ∃ config, config? payload = some config := by
  simp only [config?_eq_some_iff]
  constructor
  · rintro (h | ⟨config, h⟩)
    · exact ⟨[], .inl ⟨h, rfl⟩⟩
    · exact ⟨config, .inr h⟩
  · rintro ⟨config, ⟨h, -⟩ | h⟩
    · exact .inl h
    · exact .inr ⟨config, h⟩

theorem config?_eq_none_iff : config? payload = none ↔ ¬ HoldsConfig payload := by
  rw [holdsConfig_iff, not_exists, Option.eq_none_iff_forall_ne_some]

/-! ## Reading an entry -/

theorem Declared.isObject (h : Declared payload m) : payload.isObject = true :=
  h.key.isObject

/-- An entry is well-formed when there is a metric that it declares. -/
theorem wellFormed_iff : WellFormed payload ↔ ∃ m, Declared payload m := by
  constructor
  · rintro ⟨-, hkey, hdescription, hoperation, hconfig, hdependsOn⟩
    obtain ⟨key, hkey⟩ := Json.holdsName_iff.mp hkey
    obtain ⟨description, hdescription⟩ := Json.holdsName_iff.mp hdescription
    obtain ⟨operation, hoperation⟩ := Json.holdsName_iff.mp hoperation
    obtain ⟨config, hconfig⟩ := holdsConfig_iff.mp hconfig
    have hconfig := config?_eq_some_iff.mp hconfig
    obtain hlacks | ⟨items, hitems, hall⟩ := hdependsOn
    · exact ⟨⟨key, description, operation, config, []⟩, hkey, hdescription, hoperation, hconfig,
        .inl ⟨hlacks, rfl⟩⟩
    · obtain ⟨all, hall⟩ := Json.forall_isName_iff.mp hall
      exact ⟨⟨key, description, operation, config, all.eraseDups⟩, hkey, hdescription, hoperation,
        hconfig, .inr ⟨items, all, hitems, hall, firstOccurrences_iff.mpr rfl⟩⟩
  · rintro ⟨m, h⟩
    have hconfig : HoldsConfig payload := holdsConfig_iff.mpr ⟨_, config?_eq_some_iff.mpr h.config⟩
    refine ⟨h.isObject, Json.holdsName_iff.mpr ⟨_, h.key⟩,
      Json.holdsName_iff.mpr ⟨_, h.description⟩, Json.holdsName_iff.mpr ⟨_, h.operation⟩, hconfig, ?_⟩
    obtain ⟨hlacks, -⟩ | ⟨items, all, hitems, hall, -⟩ := h.dependsOn
    · exact .inl hlacks
    · exact .inr ⟨items, hitems, Json.forall_isName_iff.mpr ⟨all, hall⟩⟩

/-- The dependencies that a field lists are what is read from it, less the repeats. -/
theorem dependsOn_iff {field : String} {kept : List Label} :
    (payload.Lacks "depends_on" ∧ kept = [] ∨
        ∃ items all, payload.get? "depends_on" = some (.array items) ∧
          List.Forall₂ Json.Spells items all ∧ FirstOccurrences all kept) ↔
      ∃ all, payload.labels "depends_on" field = .ok all ∧ kept = all.eraseDups :=
  Json.listsAt_iff_forall₂.symm.trans (Json.listsAt_iff_labels field)

theorem parse_eq (payload : Json) (entry source : String) :
    parse payload entry source = do
      let key ← (payload.requireLabel "key" s!"{entry} in {source}").mapError .field
      let description ← (payload.requireLabel "description" (owner key source)).mapError .field
      let operation ← (payload.requireLabel "operation" (owner key source)).mapError .field
      match config? payload with
      | none => .error (.configNotMapping key.text source)
      | some config =>
        let dependsOn ←
          (payload.labels "depends_on" s!"'depends_on' for {owner key source}").mapError .field
        return ⟨key, description, operation, config, dependsOn.eraseDups⟩ := rfl

/-- Reading an entry gives the metric that it declares. -/
theorem parse_eq_ok_iff : parse payload entry source = .ok m ↔ Declared payload m := by
  simp only [parse_eq, Except.bind_eq_ok_iff, Except.mapError_eq_ok_iff,
    Json.requireLabel_eq_ok_iff, Json.bind_label?_get?_eq_some_iff]
  constructor
  · rintro ⟨key, hkey, description, hdescription, operation, hoperation, h⟩
    split at h
    · cases h
    · next config hconfig =>
      obtain ⟨all, hall, h⟩ := Except.bind_eq_ok_iff.mp h
      cases h
      exact ⟨hkey, hdescription, hoperation, config?_eq_some_iff.mp hconfig,
        dependsOn_iff.mpr ⟨all, Except.mapError_eq_ok_iff.mp hall, rfl⟩⟩
  · intro h
    obtain ⟨all, hall, hkept⟩ := dependsOn_iff.mp h.dependsOn
    refine ⟨m.key, h.key, m.description, h.description, m.operation, h.operation, ?_⟩
    rw [config?_eq_some_iff.mpr h.config]
    refine Except.bind_eq_ok_iff.mpr ⟨all, Except.mapError_eq_ok_iff.mpr hall, ?_⟩
    rw [← hkept]
    rfl

theorem fault_of_parse (h : parse payload entry source = .error e) :
    Fault payload entry source e := by
  simp only [parse_eq, Except.bind_eq_error_iff, Except.mapError_eq_error_iff,
    Except.mapError_eq_ok_iff, Json.requireLabel_eq_ok_iff, Json.bind_label?_get?_eq_some_iff,
    Json.requireLabel_eq_error_iff] at h
  obtain ⟨_, ⟨hkey, rfl⟩, rfl⟩ | ⟨k, hk, h⟩ := h
  · exact .key hkey
  obtain ⟨_, ⟨hdescription, rfl⟩, rfl⟩ | ⟨description, hdescription, h⟩ := h
  · exact .description hk hdescription
  have hdescription := Json.holdsName_iff.mpr ⟨_, hdescription⟩
  obtain ⟨_, ⟨hoperation, rfl⟩, rfl⟩ | ⟨operation, hoperation, h⟩ := h
  · exact .operation hk hdescription hoperation
  have hoperation := Json.holdsName_iff.mpr ⟨_, hoperation⟩
  split at h
  · next hconfig =>
    cases h
    exact .config hk hdescription hoperation (config?_eq_none_iff.mp hconfig)
  · next config hconfig =>
    obtain h | ⟨all, -, h⟩ := Except.bind_eq_error_iff.mp h
    · obtain ⟨_, hlabels, rfl⟩ := Except.mapError_eq_error_iff.mp h
      exact .dependsOn hk hdescription hoperation (holdsConfig_iff.mpr ⟨config, hconfig⟩)
        (Json.labels_eq_error_iff.mp hlabels)
    · cases h

/-- Reading an entry fails on its first fault. -/
theorem parse_eq_error_iff :
    parse payload entry source = .error e ↔ Fault payload entry source e := by
  refine ⟨fault_of_parse, fun h => ?_⟩
  have hrequire {key owner : String} {l : Label} (hl : payload.HoldsLabel key l) :
      (payload.requireLabel key owner).mapError DefinitionError.field = .ok l := by
    rw [hl.requireLabel]
    rfl
  have hrefuse {key owner : String} (hkey : ¬ payload.HoldsName key) :
      (payload.requireLabel key owner).mapError DefinitionError.field =
        .error (.field (.notText key owner)) := by
    rw [Json.requireLabel_eq_error_iff.mpr ⟨hkey, rfl⟩]
    rfl
  rw [parse_eq]
  cases h with
  | key hkey => rw [hrefuse hkey, Except.error_bind]
  | description hk hdescription =>
    rw [hrequire hk, Except.ok_bind, hrefuse hdescription, Except.error_bind]
  | operation hk hdescription hoperation =>
    obtain ⟨_, hdescription⟩ := Json.holdsName_iff.mp hdescription
    rw [hrequire hk, Except.ok_bind, hrequire hdescription, Except.ok_bind, hrefuse hoperation,
      Except.error_bind]
  | config hk hdescription hoperation hconfig =>
    obtain ⟨_, hdescription⟩ := Json.holdsName_iff.mp hdescription
    obtain ⟨_, hoperation⟩ := Json.holdsName_iff.mp hoperation
    rw [hrequire hk, Except.ok_bind, hrequire hdescription, Except.ok_bind, hrequire hoperation,
      Except.ok_bind, config?_eq_none_iff.mpr hconfig]
  | dependsOn hk hdescription hoperation hconfig hlisted =>
    obtain ⟨_, hdescription⟩ := Json.holdsName_iff.mp hdescription
    obtain ⟨_, hoperation⟩ := Json.holdsName_iff.mp hoperation
    obtain ⟨config, hconfig⟩ := holdsConfig_iff.mp hconfig
    rw [hrequire hk, Except.ok_bind, hrequire hdescription, Except.ok_bind, hrequire hoperation,
      Except.ok_bind, hconfig]
    dsimp only
    rw [Json.labels_eq_error_iff.mpr hlisted]
    rfl

end ItemMetrics.Metric
