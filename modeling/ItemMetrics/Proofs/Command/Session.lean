import ItemMetrics.Command.Session
import ItemMetrics.Proofs.Registry.Loading

/-! # Loading the schema

The settings, the registry and the definitions are loaded one after another. The first of them that
cannot be loaded is the failure, and otherwise there is a session (`Session.fst_on_load_eq_ok_iff`,
`Session.fst_on_load_eq_error_iff`). -/

namespace ItemMetrics

theorem Evaluator.registry_of_new {tree : FileTree} {root : String} {registry : Registry}
    {ev : Evaluator} (h : new tree root registry = .ok ev) : ev.registry = registry := by
  obtain ⟨definitions, -, h⟩ := Except.bind_eq_ok_iff.mp h
  cases h
  rfl

namespace Session

/-- A session is open when its settings are those of the run, and its registry and its definitions
are what the directories hold that the settings name. -/
structure Opened (tree : FileTree) (workingDir : String) (config : Option String)
    (session : Session) : Prop where
  settings : Settings.load tree workingDir config = .ok session.settings
  registry :
    ((Registry.load tree session.settings.typesPath).on .disabled).1 = .ok session.registry
  evaluator :
    Evaluator.new tree session.settings.derivedPath session.registry = .ok session.evaluator

/-- Why there is no session: the first thing that cannot be loaded. -/
inductive Obstacle (tree : FileTree) (workingDir : String) (config : Option String) :
    CommandError → Prop
  | settings {e : SettingsError} : Settings.load tree workingDir config = .error e →
    Obstacle tree workingDir config (.settings e)
  | registry {settings : Settings} {e : RegistryError} :
    Settings.load tree workingDir config = .ok settings →
    ((Registry.load tree settings.typesPath).on .disabled).1 = .error e →
    Obstacle tree workingDir config (.registry e)
  | definitions {settings : Settings} {registry : Registry} {e : LoadError} :
    Settings.load tree workingDir config = .ok settings →
    ((Registry.load tree settings.typesPath).on .disabled).1 = .ok registry →
    Evaluator.new tree settings.derivedPath registry = .error e →
    Obstacle tree workingDir config (.load e)

variable {tree : FileTree} {workingDir : String} {config : Option String} {session : Session}
  {e : CommandError} {log : Log}

theorem fst_on_load_eq_ok_iff :
    ((load tree workingDir config).on log).1 = .ok session ↔
      Opened tree workingDir config session := by
  simp only [load, Logged.fst_on_bind, Logged.on_ofExcept, Logged.on_adapt, Logged.on_pure,
    Except.bind_eq_ok_iff, Except.mapError_eq_ok_iff]
  constructor
  · rintro ⟨settings, hsettings, registry, hregistry, evaluator, hevaluator, h⟩
    cases h
    cases Evaluator.registry_of_new hevaluator
    exact ⟨hsettings, (Registry.fst_on_load _ _ _ _).trans hregistry, hevaluator⟩
  · intro h
    exact ⟨_, h.settings, _, (Registry.fst_on_load _ _ _ _).trans h.registry, _, h.evaluator, rfl⟩

theorem fst_on_load_eq_error_iff :
    ((load tree workingDir config).on log).1 = .error e ↔ Obstacle tree workingDir config e := by
  simp only [load, Logged.fst_on_bind, Logged.on_ofExcept, Logged.on_adapt, Logged.on_pure,
    Except.bind_eq_error_iff, Except.mapError_eq_ok_iff, Except.mapError_eq_error_iff]
  constructor
  · rintro (⟨e', he, rfl⟩ | ⟨settings, hsettings, ⟨e', he, rfl⟩ | ⟨registry, hregistry, h⟩⟩)
    · exact .settings he
    · exact .registry hsettings ((Registry.fst_on_load _ _ _ _).trans he)
    · obtain ⟨e', he, rfl⟩ | ⟨_, -, h⟩ := h
      · exact .definitions hsettings ((Registry.fst_on_load _ _ _ _).trans hregistry) he
      · cases h
  · intro h
    cases h with
    | settings he => exact .inl ⟨_, he, rfl⟩
    | registry hsettings he =>
      exact .inr ⟨_, hsettings, .inl ⟨_, (Registry.fst_on_load _ _ _ _).trans he, rfl⟩⟩
    | definitions hsettings hregistry he =>
      exact .inr ⟨_, hsettings, .inr ⟨_, (Registry.fst_on_load _ _ _ _).trans hregistry,
        .inl ⟨_, he, rfl⟩⟩⟩

end Session
end ItemMetrics
