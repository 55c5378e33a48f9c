import ItemMetrics.Proofs.Evaluator.Reloading
import ItemMetrics.Proofs.Registry.Loading

/-! # The names of the files of a schema

Files that are named otherwise are read in another order. Neither the definitions nor the manifests
that are loaded depend on it (`Document.load_of_renamed`): both loads succeed exactly when each
document can be read and no two are for one type, and that is the same in any order. -/

namespace ItemMetrics

deriving instance DecidableEq for Document.Contents

namespace Document

/-- The documents found in two directories, paired off: each goes with one of the same format and
content. -/
structure Renaming (tree : FileTree) (root : String) (tree' : FileTree) (root' : String)
    (recursive : Bool) (names : List (String × String)) : Prop where
  found : ∃ paths, discover tree root recursive = .ok paths ∧ (names.map Prod.fst).Perm paths
  found' : ∃ paths, discover tree' root' recursive = .ok paths ∧ (names.map Prod.snd).Perm paths
  same : ∀ n ∈ names, contents tree n.1 = contents tree' n.2

variable {tree tree' : FileTree} {root root' : String} {recursive : Bool}
  {names : List (String × String)}

theorem Renaming.symm (h : Renaming tree root tree' root' recursive names) :
    Renaming tree' root' tree root recursive (names.map Prod.swap) where
  found := by simpa [Function.comp_def] using h.found'
  found' := by simpa [Function.comp_def] using h.found
  same := by
    intro n hn
    obtain ⟨n', hn', rfl⟩ := List.mem_map.mp hn
    exact (h.same n' hn').symm

/-- What is read from the documents of one directory is read from those of the other, in some
order. -/
theorem Renaming.exists_perm {ε α : Type} {read : FileTree → String → Except ε α}
    {value? : Contents → Option α} {paths : List String} {as : List α}
    (h : Renaming tree root tree' root' recursive names)
    (hread : ∀ tree path, (read tree path).toOption = value? (contents tree path))
    (hpaths : discover tree root recursive = .ok paths) (has : paths.mapM (read tree) = .ok as) :
    ∃ paths' as', discover tree' root' recursive = .ok paths' ∧
      paths'.mapM (read tree') = .ok as' ∧ as'.Perm as := by
  obtain ⟨paths₁, hpaths₁, hfst⟩ := h.found
  obtain ⟨paths', hpaths', hsnd⟩ := h.found'
  cases hpaths.symm.trans hpaths₁
  have hsame : (names.map Prod.fst).map (fun path => (read tree path).toOption) =
      (names.map Prod.snd).map fun path => (read tree' path).toOption := by
    rw [List.map_map, List.map_map]
    refine List.map_congr_left fun n hn => ?_
    simp only [Function.comp_apply, hread, h.same n hn]
  have hperm : (paths'.map fun path => (read tree' path).toOption).Perm (as.map some) := by
    rw [← Except.mapM_eq_ok_iff.mp has]
    exact (hsnd.symm.map _).trans (.trans (.of_eq hsame.symm) (hfst.map _))
  obtain ⟨as', has', has⟩ := exists_perm_of_map hperm
  exact ⟨paths', as', hpaths', Except.mapM_eq_ok_iff.mpr has'.symm, has⟩

end Document

open Document

theorem Definitions.load_of_renaming {tree tree' : FileTree} {root root' : String}
    {names : List (String × String)} {registry : Registry} {ds : Definitions}
    (h : Renaming tree root tree' root' false names) (hload : load tree root registry = .ok ds) :
    load tree' root' registry = .ok ds := by
  obtain ⟨paths, defs, hpaths, hdefs, hregistered, hnodup, hds⟩ := load_eq_ok_iff.mp hload
  obtain ⟨paths', defs', hpaths', hdefs', hperm⟩ :=
    h.exists_perm (fun _ _ => toOption_definition) hpaths hdefs
  refine load_eq_ok_iff.mpr ⟨paths', defs', hpaths', hdefs', fun d hd => ?_, ?_, ?_⟩
  · exact hregistered d (hperm.mem_iff.mp hd)
  · exact (hperm.map _).nodup_iff.mpr hnodup
  · exact hds.trans hperm.symm

theorem Registry.load_of_renaming {tree tree' : FileTree} {root root' : String}
    {names : List (String × String)} {r : Registry} {log : Log}
    (h : Renaming tree root tree' root' true names)
    (hload : ((load tree root).on log).1 = .ok r) (log' : Log) :
    ∃ r', ((load tree' root').on log').1 = .ok r' ∧ r'.manifests.Perm r.manifests := by
  obtain ⟨paths, ms, hpaths, hms, hr⟩ := load_eq_ok_iff.mp hload
  obtain ⟨paths', ms', hpaths', hms', hperm⟩ :=
    h.exists_perm (fun _ _ => toOption_manifest) hpaths hms
  obtain ⟨hnodup, rfl⟩ := ofManifests_eq_ok_iff.mp hr
  have hnodup' : (ms'.map Manifest.type).Nodup := (hperm.map _).nodup_iff.mpr hnodup
  have hr' : ofManifests ms' = .ok ⟨ms', hnodup'⟩ := ofManifests_eq_ok_iff.mpr ⟨hnodup', rfl⟩
  exact ⟨⟨ms', hnodup'⟩, load_eq_ok_iff.mpr ⟨paths', ms', hpaths', hms', hr'⟩, hperm⟩

namespace Document

theorem reload_of_renaming {tree tree' : FileTree} {ev ev' : Evaluator}
    {names : List (String × String)} (h : Renaming tree ev.root tree' ev'.root false names)
    (hregistry : ev.registry = ev'.registry) (hok : (ev.reload tree).1 = .ok ()) :
    (ev'.reload tree').1 = .ok () ∧
      (ev'.reload tree').2.definitions = (ev.reload tree).2.definitions := by
  cases hload : Definitions.load tree ev.root ev.registry with
  | error e =>
    rw [Evaluator.reload_of_load_error hload] at hok
    cases hok
  | ok ds =>
    have hload' : Definitions.load tree' ev'.root ev'.registry = .ok ds :=
      hregistry ▸ Definitions.load_of_renaming h hload
    rw [Evaluator.reload_of_load hload, Evaluator.reload_of_load hload']
    exact ⟨rfl, rfl⟩

/-- **Loading does not depend on how the files are named.** Renaming the files of a directory changes
neither whether its documents can be loaded nor what is loaded: the definitions are equal, and the
manifests are the same in some order. -/
theorem load_of_renamed {tree tree' : FileTree} {root root' : String}
    {names : List (String × String)} :
    (Renaming tree root tree' root' false names →
      ∀ ev ev' : Evaluator, ev.root = root → ev'.root = root' → ev.registry = ev'.registry →
        ((ev.reload tree).1 = .ok () ↔ (ev'.reload tree').1 = .ok ()) ∧
        ((ev.reload tree).1 = .ok () →
          (ev.reload tree).2.definitions = (ev'.reload tree').2.definitions)) ∧
    (Renaming tree root tree' root' true names → ∀ log log',
      ((∃ r, ((Registry.load tree root).on log).1 = .ok r) ↔
        ∃ r', ((Registry.load tree' root').on log').1 = .ok r') ∧
      ∀ r r', ((Registry.load tree root).on log).1 = .ok r →
        ((Registry.load tree' root').on log').1 = .ok r' → r.manifests.Perm r'.manifests) := by
  refine ⟨?_, fun h log log' => ⟨⟨?_, ?_⟩, ?_⟩⟩
  · rintro h ev ev' rfl rfl hregistry
    refine ⟨⟨fun hok => ?_, fun hok => ?_⟩, fun hok => ?_⟩
    · exact (reload_of_renaming h hregistry hok).1
    · exact (reload_of_renaming h.symm hregistry.symm hok).1
    · exact (reload_of_renaming h hregistry hok).2.symm
  · rintro ⟨r, hr⟩
    obtain ⟨r', hr', -⟩ := Registry.load_of_renaming h hr log'
    exact ⟨r', hr'⟩
  · rintro ⟨r', hr'⟩
    obtain ⟨r, hr, -⟩ := Registry.load_of_renaming h.symm hr' log
    exact ⟨r, hr⟩
  · intro r r' hr hr'
    obtain ⟨r₁, hr₁, hperm⟩ := Registry.load_of_renaming h hr log'
    cases hr'.symm.trans hr₁
    exact hperm.symm

/-- Two documents that are found are put in the order of their paths. -/
theorem discover_of_pair {key : FileKey} {a b : String}
    (hroot : tree.stat root = .ok .directory ∧ tree.locate root = .ok key ∧
      Path.first? (obstacles tree key recursive) = none)
    (hfound : candidates tree key root recursive ∈ [[a, b], [b, a]])
    (hbefore : Path.before a b = true ∧ Path.before b a = false) :
    discover tree root recursive = .ok [a, b] := by
  obtain ⟨hstat, hkey, hopen⟩ := hroot
  obtain ⟨hab, hba⟩ := hbefore
  simp only [List.mem_cons, List.not_mem_nil, or_false] at hfound
  rcases hfound with hfound | hfound
  all_goals simp [discover, hstat, hkey, hopen, hfound, hab, hba, List.mergeSort]

end Document

namespace Sample

/-- Two documents, each a manifest and a definition, in files with the given names. -/
def twoDocuments (first second : String) : FileTree :=
  (FileTree.empty.addFile first (.text "type: note\nschema: a\nmetrics: []\n")).addFile second
    (.text "type: memo\nschema: b\nmetrics: []\n")

theorem nodup_twoTypes : [label "note", label "memo"].Nodup := by decide

/-- The registry of the two manifests. -/
def twoTypes : Registry :=
  ⟨[⟨label "note", label "a", []⟩, ⟨label "memo", label "b", []⟩], nodup_twoTypes⟩

theorem discover_inOrder (recursive : Bool) :
    discover (twoDocuments "s/a.yaml" "s/b.yaml") "s" recursive =
      .ok ["s/a.yaml", "s/b.yaml"] := by
  have hroot : (twoDocuments "s/a.yaml" "s/b.yaml").stat "s" = .ok .directory ∧
      (twoDocuments "s/a.yaml" "s/b.yaml").locate "s" = .ok [.name "s" (by decide)] ∧
      Path.first? (obstacles (twoDocuments "s/a.yaml" "s/b.yaml") [.name "s" (by decide)]
        recursive) = none := by
    cases recursive <;> decide +kernel
  exact discover_of_pair hroot (by cases recursive <;> decide +kernel) (by decide +kernel)

theorem discover_reversed (recursive : Bool) :
    discover (twoDocuments "t/z.yml" "t/y.yml") "t" recursive = .ok ["t/y.yml", "t/z.yml"] := by
  have hroot : (twoDocuments "t/z.yml" "t/y.yml").stat "t" = .ok .directory ∧
      (twoDocuments "t/z.yml" "t/y.yml").locate "t" = .ok [.name "t" (by decide)] ∧
      Path.first? (obstacles (twoDocuments "t/z.yml" "t/y.yml") [.name "t" (by decide)]
        recursive) = none := by
    cases recursive <;> decide +kernel
  exact discover_of_pair hroot (by cases recursive <;> decide +kernel) (by decide +kernel)

theorem renaming_twoDocuments (recursive : Bool) :
    Renaming (twoDocuments "s/a.yaml" "s/b.yaml") "s" (twoDocuments "t/z.yml" "t/y.yml") "t"
      recursive [("s/a.yaml", "t/z.yml"), ("s/b.yaml", "t/y.yml")] where
  found := ⟨_, discover_inOrder recursive, .refl _⟩
  found' := ⟨_, discover_reversed recursive, .swap _ _ _⟩
  same := by decide +kernel

end Sample

namespace Document

open Sample

theorem load_of_renamed_sample :
    (∃ r, ((Registry.load (twoDocuments "t/z.yml" "t/y.yml") "t").on .disabled).1 = .ok r ∧
      twoTypes.manifests.Perm r.manifests) ∧
    (Evaluator.reload ⟨"t", twoTypes, ∅⟩ (twoDocuments "t/z.yml" "t/y.yml")).1 = .ok () := by
  have hload : ((Registry.load (twoDocuments "s/a.yaml" "s/b.yaml") "s").on .disabled).1 =
      .ok twoTypes :=
    Registry.load_eq_ok_iff.mpr ⟨_, _, discover_inOrder true, by decide +kernel,
      Registry.ofManifests_eq_ok_iff.mpr ⟨twoTypes.nodup, rfl⟩⟩
  have hreload :
      (Evaluator.reload ⟨"s", twoTypes, ∅⟩ (twoDocuments "s/a.yaml" "s/b.yaml")).1 = .ok () := by
    simp only [Evaluator.reload, Definitions.load, discover_inOrder]
    decide +kernel
  obtain ⟨hdefinitions, -⟩ := load_of_renamed.1 (renaming_twoDocuments false)
    ⟨"s", twoTypes, ∅⟩ ⟨"t", twoTypes, ∅⟩ rfl rfl rfl
  obtain ⟨hsame, hperm⟩ := load_of_renamed.2 (renaming_twoDocuments true) .disabled .disabled
  obtain ⟨r, hr⟩ := hsame.mp ⟨twoTypes, hload⟩
  exact ⟨⟨r, hr, hperm twoTypes r hload hr⟩, hdefinitions.mp hreload⟩

end Document
end ItemMetrics
