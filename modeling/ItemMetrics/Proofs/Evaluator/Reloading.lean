import ItemMetrics.Proofs.Document.Naming
import ItemMetrics.Proofs.Evaluator.Loading
import ItemMetrics.Proofs.Evaluator.Outcome

/-! # Reloading

Definitions are loaded when each document holds one, each is for a registered type and no two are
for the same; what is left then is all of them in the order of their types
(`Definitions.load_eq_ok_iff`). Nothing that was loaded before has a part in it, and a failure
leaves nothing (`Evaluator.reload_forgets`). -/

namespace ItemMetrics

namespace Definitions

variable {tree : FileTree} {registry : Registry} {ds ds' ds₁ : Definitions} {d : TypeDefinition}
  {defs l : List TypeDefinition} {paths : List String} {path root type : String}

/-! ## Placing a definition -/

theorem place_perm (d : TypeDefinition) (l : List TypeDefinition) : (place d l).Perm (d :: l) := by
  induction l with
  | nil => exact .refl _
  | cons e l ih =>
    rw [place]
    split
    · exact .refl _
    · exact (ih.cons e).trans (.swap d e l)

theorem nodup_typesOf (ds : Definitions) : (typesOf ds.toList).Nodup :=
  ds.sorted.imp fun h => String.ne_of_lt h

/-- The same definitions stand in the same order. -/
theorem eq_of_perm (h : ds.toList.Perm ds'.toList) : ds = ds' := by
  have hsorted (ds : Definitions) :
      ds.toList.Pairwise fun d e => d.type.text < e.type.text := List.pairwise_map.mp ds.sorted
  have hlist : ds.toList = ds'.toList :=
    h.eq_of_pairwise (fun d e _ _ hde hed => absurd hed (String.lt_asymm hde)) (hsorted ds)
      (hsorted ds')
  cases ds
  cases ds'
  cases hlist
  rfl

theorem insert?_eq_some_iff :
    ds.insert? d = some ds' ↔ d.type.text ∉ ds.types ∧ ds'.toList = place d ds.toList := by
  unfold insert?
  split
  · next h => simp [h]
  · next h =>
    simp only [Option.some.injEq, h, not_false_eq_true, true_and]
    constructor
    · rintro rfl
      rfl
    · intro hlist
      exact eq_of_perm (by rw [hlist])

/-- A document is added when it holds a definition for a registered type that has none. -/
theorem add_eq_ok_iff :
    add tree registry ds path = .ok ds' ↔
      ∃ d, read tree path = .ok d ∧ registry.contains d.type.text = true ∧
        d.type.text ∉ ds.types ∧ ds'.toList = place d ds.toList := by
  simp only [add, Except.bind_eq_ok_iff, ← insert?_eq_some_iff]
  refine exists_congr fun d => and_congr_right fun _ => ?_
  cases hregistered : registry.contains d.type.text with
  | false => simp
  | true =>
    cases hinsert : ds.insert? d with
    | none => simp
    | some ds₁ => simp [pure, Except.pure]

/-- Adding documents one after another adds the definition of each. -/
theorem foldlM_add_eq_ok_iff :
    paths.foldlM (add tree registry) ds = .ok ds' ↔
      ∃ defs, paths.mapM (read tree) = .ok defs ∧
        (∀ d ∈ defs, registry.contains d.type.text = true) ∧
        (typesOf (ds.toList ++ defs)).Nodup ∧ ds'.toList.Perm (ds.toList ++ defs) := by
  induction paths generalizing ds with
  | nil =>
    simp only [List.foldlM_nil, List.mapM_nil]
    constructor
    · intro h
      cases h
      exact ⟨[], rfl, by simp, by simpa using nodup_typesOf _, by simp⟩
    · rintro ⟨_, hdefs, -, -, hperm⟩
      cases hdefs
      rw [List.append_nil] at hperm
      rw [eq_of_perm hperm]
      rfl
  | cons path paths ih =>
    have hmiddle (d : TypeDefinition) (defs : List TypeDefinition) :
        (place d ds.toList ++ defs).Perm (ds.toList ++ d :: defs) :=
      ((place_perm d ds.toList).append_right defs).trans List.perm_middle.symm
    have hnodup (d : TypeDefinition) (defs : List TypeDefinition) :
        (typesOf (place d ds.toList ++ defs)).Nodup ↔ (typesOf (ds.toList ++ d :: defs)).Nodup :=
      ((hmiddle d defs).map _).nodup_iff
    simp only [List.foldlM_cons, Except.bind_eq_ok_iff, add_eq_ok_iff, ih, List.mapM_cons]
    constructor
    · rintro ⟨ds₁, ⟨d, hread, hregistered, -, hlist⟩, defs, hdefs, hall, htypes, hperm⟩
      rw [hlist] at htypes hperm
      exact ⟨d :: defs, ⟨d, hread, defs, hdefs, rfl⟩, List.forall_mem_cons.mpr ⟨hregistered, hall⟩,
        (hnodup d defs).mp htypes, hperm.trans (hmiddle d defs)⟩
    · rintro ⟨_, ⟨d, hread, defs, hdefs, heq⟩, hall, htypes, hperm⟩
      cases heq
      obtain ⟨hregistered, hall⟩ := List.forall_mem_cons.mp hall
      have hfresh : d.type.text ∉ ds.types := by
        intro hmem
        rw [typesOf, List.map_append, List.nodup_append] at htypes
        exact htypes.2.2 _ hmem _ (by simp) rfl
      refine ⟨⟨place d ds.toList, sorted_place ds.sorted hfresh⟩, ⟨d, hread, hregistered, hfresh, rfl⟩,
        defs, hdefs, hall, (hnodup d defs).mpr htypes, hperm.trans (hmiddle d defs).symm⟩

/-- When loading succeeds, and what is left then. -/
theorem load_eq_ok_iff :
    load tree root registry = .ok ds ↔
      ∃ paths defs, Document.discover tree root false = .ok paths ∧
        paths.mapM (read tree) = .ok defs ∧
        (∀ d ∈ defs, registry.contains d.type.text = true) ∧ (typesOf defs).Nodup ∧
        ds.toList.Perm defs := by
  simp only [load, Except.bind_eq_ok_iff, Except.mapError_eq_ok_iff, foldlM_add_eq_ok_iff,
    ← exists_and_left]
  rfl

theorem find?_eq_some_iff : ds.find? type = some d ↔ d ∈ ds.toList ∧ d.type.text = type :=
  find?_key_eq_some_iff (nodup_typesOf ds)

theorem mem_types_iff : type ∈ ds.types ↔ ∃ d ∈ ds.toList, d.type.text = type :=
  List.mem_map

end Definitions

/-- The file of a definition without metrics. -/
def Sample.bare : FileTree :=
  .addFile .empty "derived/task.yaml" (.text "type: \" task \"\nmetrics: []\n")

/-- The file of a definition for a type that is not registered. -/
def Sample.foreign : FileTree :=
  .addFile .empty "derived/note.yaml" (.text "type: note\nmetrics: []\n")

/-- The document at a path declares a type: the text under `type` less the blanks around it. -/
def Document.Declares (tree : FileTree) (path type : String) : Prop :=
  ∃ payload s, Document.load tree path = .ok payload ∧ payload.get? "type" = some (.string s) ∧
    Text.trim s = type

theorem Document.declares_iff_of_read {tree : FileTree} {path type : String} {d : TypeDefinition}
    (h : Definitions.read tree path = .ok d) : Declares tree path type ↔ d.type.text = type := by
  obtain ⟨payload, hload, hread⟩ := Except.bind_eq_ok_iff.mp h
  rw [Except.mapError_eq_ok_iff] at hload
  split at hread
  · cases hread
  · rw [Except.mapError_eq_ok_iff, TypeDefinition.ofJson_eq_ok_iff] at hread
    obtain ⟨s, hs, htrim⟩ := Json.bind_label?_eq_some_iff.mp hread.1
    constructor
    · rintro ⟨payload', s', hload', hs', rfl⟩
      cases hload.symm.trans hload'
      cases hs.symm.trans hs'
      exact htrim.symm
    · rintro rfl
      exact ⟨payload, s, hload, hs, htrim⟩

namespace Evaluator

/-- The evaluator after it was reloaded from the files as they were each time. -/
def reloads (ev : Evaluator) (history : List FileTree) : Evaluator :=
  history.foldl (fun ev tree => (ev.reload tree).2) ev

variable {ev ev' : Evaluator} {tree : FileTree} {history : List FileTree} {ds : Definitions}
  {item : Json} {type : String} {e : LoadError}

theorem reload_of_load (h : Definitions.load tree ev.root ev.registry = .ok ds) :
    ev.reload tree = (.ok (), ⟨ev.root, ev.registry, ds⟩) := by
  rw [reload, h]

theorem reload_of_load_error (h : Definitions.load tree ev.root ev.registry = .error e) :
    ev.reload tree = (.error e, ⟨ev.root, ev.registry, ∅⟩) := by
  rw [reload, h]

@[simp] theorem root_reload (ev : Evaluator) (tree : FileTree) :
    (ev.reload tree).2.root = ev.root := by
  unfold reload
  split <;> rfl

@[simp] theorem registry_reload (ev : Evaluator) (tree : FileTree) :
    (ev.reload tree).2.registry = ev.registry := by
  unfold reload
  split <;> rfl

/-- The definitions at hand have no part in a reload. -/
theorem reload_congr (hroot : ev.root = ev'.root) (hregistry : ev.registry = ev'.registry) :
    ev.reload tree = ev'.reload tree := by
  unfold reload
  rw [hroot, hregistry]

theorem root_reloads (ev : Evaluator) (history : List FileTree) :
    (ev.reloads history).root = ev.root := by
  induction history generalizing ev with
  | nil => rfl
  | cons tree history ih => exact (ih (ev.reload tree).2).trans (root_reload ev tree)

theorem registry_reloads (ev : Evaluator) (history : List FileTree) :
    (ev.reloads history).registry = ev.registry := by
  induction history generalizing ev with
  | nil => rfl
  | cons tree history ih => exact (ih (ev.reload tree).2).trans (registry_reload ev tree)

theorem new_eq_map_reload (ev : Evaluator) (tree : FileTree) :
    new tree ev.root ev.registry = (ev.reload tree).1.map fun _ => (ev.reload tree).2 := by
  unfold new reload
  cases Definitions.load tree ev.root ev.registry <;> rfl

theorem outcome_of_no_definitions (h : ev.definitions = ∅) (htype : HasType item type)
    (hregistry : ev.registry.contains type = true) :
    ev.outcome item = .error (.noDefinition type) := by
  refine outcome_of_definitionOf_error (definitionOf_eq_error_iff.mpr ?_)
  exact .noDefinition htype hregistry (by rw [h]; rfl)

/-- The definitions of an evaluator are those in the documents at the given paths, which are all
that its directory holds. -/
structure LoadedFrom (ev : Evaluator) (tree : FileTree) (paths : List String) : Prop where
  found : Document.discover tree ev.root false = .ok paths
  sorted : ev.types.Pairwise (· < ·)
  mem_types_iff : ∀ type, type ∈ ev.types ↔ ∃ path ∈ paths, Document.Declares tree path type
  registered : ∀ type ∈ ev.types, ev.registry.contains type = true
  defined_iff : ∀ type, (∃ d, ev.definitionFor type = .ok d) ↔ type ∈ ev.types
  declared : ∀ type d, ev.definitionFor type = .ok d →
    d.type.text = type ∧ (d.metrics.map (·.key.text)).Nodup ∧
      ∃ path ∈ paths, Definitions.read tree path = .ok d

theorem exists_loadedFrom (h : Definitions.load tree ev.root ev.registry = .ok ds) :
    ∃ paths, LoadedFrom ⟨ev.root, ev.registry, ds⟩ tree paths := by
  obtain ⟨paths, defs, hpaths, hdefs, hregistered, -, hperm⟩ := Definitions.load_eq_ok_iff.mp h
  have hmem (d : TypeDefinition) :
      d ∈ ds.toList ↔ ∃ path ∈ paths, Definitions.read tree path = .ok d :=
    hperm.mem_iff.trans (Except.mem_iff_of_mapM hdefs)
  refine ⟨paths,
    { found := hpaths
      sorted := ds.sorted
      mem_types_iff := fun type => Definitions.mem_types_iff.trans ⟨?_, ?_⟩
      registered := fun type htype => ?_
      defined_iff := fun type => ?_
      declared := fun type d hd => ?_ }⟩
  · rintro ⟨d, hd, htype⟩
    obtain ⟨path, hpath, hread⟩ := (hmem d).mp hd
    exact ⟨path, hpath, (Document.declares_iff_of_read hread).mpr htype⟩
  · rintro ⟨path, hpath, hdeclares⟩
    obtain ⟨d, hd, hread⟩ := Except.exists_of_mapM hdefs hpath
    exact ⟨d, hperm.mem_iff.mpr hd, (Document.declares_iff_of_read hread).mp hdeclares⟩
  · obtain ⟨d, hd, rfl⟩ := Definitions.mem_types_iff.mp htype
    exact hregistered d (hperm.mem_iff.mp hd)
  · simp only [definitionFor_eq_ok_iff, Definitions.find?_eq_some_iff]
    exact Definitions.mem_types_iff.symm
  · rw [definitionFor_eq_ok_iff, Definitions.find?_eq_some_iff] at hd
    exact ⟨hd.2, d.nodup_keys, (hmem d).mp hd.1⟩

/-- **A reload forgets what was loaded before.** After whatever reloads it comes to what a new
evaluator comes to. If it fails nothing is defined, and if it succeeds the definitions are those in
the documents of the directory. -/
theorem reload_forgets (ev : Evaluator) (history : List FileTree) {tree : FileTree}
    {outcome : Except LoadError Unit} {ev' : Evaluator}
    (h : (ev.reloads history).reload tree = (outcome, ev')) :
    (∀ ev₁ : Evaluator, ev₁.root = ev.root → ev₁.registry = ev.registry →
      ev₁.reload tree = (outcome, ev')) ∧
    new tree ev.root ev.registry = outcome.map (fun _ => ev') ∧
    (∀ e, outcome = .error e → ev'.definitions = ∅ ∧
      ∀ item type log, HasType item type → ev.registry.contains type = true →
        ((ev'.evaluate item).on log).1 = .error (.noDefinition type)) ∧
    (outcome = .ok () → ∃ paths, ev'.LoadedFrom tree paths) ∧
    ev'.root = ev.root ∧ ev'.registry = ev.registry := by
  rw [reload_congr (root_reloads ev history) (registry_reloads ev history)] at h
  refine ⟨fun ev₁ hroot hregistry => (reload_congr hroot hregistry).trans h, ?_, ?_⟩
  · rw [new_eq_map_reload, h]
  cases hload : Definitions.load tree ev.root ev.registry with
  | error e =>
    cases (reload_of_load_error hload).symm.trans h
    refine ⟨fun e' _ => ⟨rfl, fun item type log htype hregistry => ?_⟩, fun hok => ?_, rfl, rfl⟩
    · rw [fst_on_evaluate]
      exact outcome_of_no_definitions rfl htype hregistry
    · cases hok
  | ok ds =>
    cases (reload_of_load hload).symm.trans h
    refine ⟨fun e he => ?_, fun _ => exists_loadedFrom hload, rfl, rfl⟩
    cases he

open Sample

theorem reload_forgets_sample :
    ∃ ev' d, ((evaluator definition).reloads [foreign]).reload bare = (.ok (), ev') ∧
      ev'.definitionFor "task" = .ok d ∧ d.type.text = "task" := by
  have hreload : (((evaluator definition).reloads [foreign]).reload bare).1 = .ok () ∧
      (((evaluator definition).reloads [foreign]).reload bare).2.types = ["task"] := by
    decide +kernel
  obtain ⟨hok, htypes⟩ := hreload
  obtain ⟨-, -, -, hloaded, -⟩ := reload_forgets (evaluator definition) [foreign]
    (Prod.eta (((evaluator definition).reloads [foreign]).reload bare)).symm
  obtain ⟨paths, hpaths⟩ := hloaded hok
  obtain ⟨d, hd⟩ := (hpaths.defined_iff "task").mpr (by rw [htypes]; exact List.mem_singleton_self _)
  exact ⟨_, d, Prod.ext hok rfl, hd, (hpaths.declared "task" d hd).1⟩

end Evaluator
end ItemMetrics
