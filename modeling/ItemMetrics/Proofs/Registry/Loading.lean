import Mathlib.Data.List.Nodup
import ItemMetrics.Proofs.Except
import ItemMetrics.Proofs.Trace.Logged
import ItemMetrics.Registry.Basic

/-! # Building a registry

A manifest is registered when its type is new, and then stands at the end. A registry is built of
manifests, or of the documents that hold them, exactly when no two are for one type; it then holds
them in their order (`Registry.ofManifests_eq_ok_iff`, `Registry.load_eq_ok_iff`). -/

namespace ItemMetrics.Registry

variable {r r' : Registry} {m : Manifest} {ms : List Manifest} {tree : FileTree} {span : Span}
  {log : Log} {paths : List String} {path root type : String}

/-! ## One manifest -/

@[ext] theorem ext (h : r.manifests = r'.manifests) : r = r' := by
  cases r
  cases r'
  cases h
  rfl

theorem mem_types_iff : type ∈ r.types ↔ ∃ m ∈ r.manifests, m.type.text = type :=
  List.mem_map

theorem insert?_eq_some_iff :
    r.insert? m = some r' ↔ m.type.text ∉ r.types ∧ r'.manifests = r.manifests ++ [m] := by
  have hcontains : r.contains m.type.text = true ↔ m.type.text ∈ r.types := List.contains_iff_mem
  unfold insert?
  split
  · next h => simp [hcontains.mp h]
  · next h =>
    rw [Option.some.injEq, Registry.ext_iff, and_iff_right (mt hcontains.mpr h)]
    exact eq_comm

theorem insert?_eq_none_iff : r.insert? m = none ↔ m.type.text ∈ r.types := by
  unfold insert?
  split
  · next h => simpa using List.contains_iff_mem.mp h
  · next h => simpa using mt List.contains_iff_mem.mpr h

theorem register_eq_ok_iff :
    r.register m = .ok r' ↔ m.type.text ∉ r.types ∧ r'.manifests = r.manifests ++ [m] := by
  rw [← insert?_eq_some_iff, register]
  split <;> simp [*]

theorem register_eq_error_iff {e : RegistryError} :
    r.register m = .error e ↔ m.type.text ∈ r.types ∧ e = .duplicate m.type.text := by
  rw [← insert?_eq_none_iff, register]
  split <;> simp [*, eq_comm]

/-! ## Manifests one after another -/

/-- The type of the first manifest is new, and those after it are for types of their own. -/
theorem nodup_append_cons_iff {l : List Manifest} :
    ((r.manifests ++ m :: l).map Manifest.type).Nodup ↔
      m.type.text ∉ r.types ∧ ((r.manifests ++ [m] ++ l).map Manifest.type).Nodup := by
  rw [List.append_assoc, List.singleton_append]
  refine ⟨fun h => ⟨fun hmem => ?_, h⟩, And.right⟩
  obtain ⟨m', hm', htype⟩ := mem_types_iff.mp hmem
  rw [List.map_append, List.nodup_append] at h
  exact h.2.2 _ (List.mem_map_of_mem hm') _ List.mem_cons_self (Label.ext htype)

theorem foldlM_register_eq_ok_iff :
    ms.foldlM register r = .ok r' ↔
      ((r.manifests ++ ms).map Manifest.type).Nodup ∧ r'.manifests = r.manifests ++ ms := by
  induction ms generalizing r with
  | nil =>
    rw [List.foldlM_nil, List.append_nil, and_iff_right r.nodup, ← Registry.ext_iff]
    constructor
    · intro h
      cases h
      rfl
    · rintro rfl
      rfl
  | cons m ms ih =>
    simp only [List.foldlM_cons, Except.bind_eq_ok_iff, register_eq_ok_iff, ih,
      nodup_append_cons_iff]
    constructor
    · rintro ⟨r₁, ⟨hnew, hlist⟩, hnodup, hr'⟩
      rw [hlist] at hnodup hr'
      exact ⟨⟨hnew, hnodup⟩, by rw [hr', List.append_assoc, List.singleton_append]⟩
    · rintro ⟨⟨hnew, hnodup⟩, hr'⟩
      obtain ⟨r₁, hr₁⟩ : ∃ r₁, r.insert? m = some r₁ :=
        Option.ne_none_iff_exists'.mp (mt insert?_eq_none_iff.mp hnew)
      have hlist := (insert?_eq_some_iff.mp hr₁).2
      refine ⟨r₁, ⟨hnew, hlist⟩, by rwa [hlist], ?_⟩
      rw [hr', hlist, List.append_assoc, List.singleton_append]

/-- Manifests make a registry when no two are for one type. -/
theorem ofManifests_eq_ok_iff :
    ofManifests ms = .ok r ↔ (ms.map Manifest.type).Nodup ∧ r.manifests = ms :=
  foldlM_register_eq_ok_iff

/-! ## Documents one after another -/

/-- Registers the manifest of one document. -/
def loadNext (tree : FileTree) (r : Registry) (path : String) : Except RegistryError Registry := do
  let m ← read tree path
  match r.insert? m with
  | none => .error (.duplicateIn m.type.text path)
  | some r => return r

theorem fst_on_loadDocument :
    ((loadDocument tree span r path).on log).1 = loadNext tree r path := by
  simp only [loadDocument, loadNext, Logged.fst_on_bind, Logged.on_ofExcept]
  refine congrArg _ (funext fun m => ?_)
  cases r.insert? m <;> rfl

theorem fst_on_foldlM_loadDocument :
    ((paths.foldlM (loadDocument tree span) r).on log).1 = paths.foldlM (loadNext tree) r := by
  induction paths generalizing r log with
  | nil => rfl
  | cons path paths ih =>
    rw [List.foldlM_cons, List.foldlM_cons, Logged.fst_on_bind, fst_on_loadDocument]
    exact congrArg _ (funext fun r => ih)

/-- The log has no part in what a directory comes to. -/
theorem fst_on_load (tree : FileTree) (root : String) (log log' : Log) :
    ((load tree root).on log).1 = ((load tree root).on log').1 := by
  simp only [load, Logged.on_inSpan, Logged.fst_on_bind, Logged.on_ofExcept,
    fst_on_foldlM_loadDocument, Logged.on_emit, Logged.on_pure]

theorem loadNext_eq_ok_iff :
    loadNext tree r path = .ok r' ↔ ∃ m, read tree path = .ok m ∧ r.register m = .ok r' := by
  simp only [loadNext, Except.bind_eq_ok_iff]
  refine exists_congr fun m => and_congr_right fun _ => ?_
  rw [register]
  cases r.insert? m with
  | none => simp only [reduceCtorEq]
  | some r₁ => rfl

/-- Loading documents registers what each of them holds. -/
theorem foldlM_loadNext_eq_ok_iff :
    paths.foldlM (loadNext tree) r = .ok r' ↔
      ∃ ms, paths.mapM (read tree) = .ok ms ∧ ms.foldlM register r = .ok r' := by
  induction paths generalizing r with
  | nil =>
    constructor
    · intro h
      exact ⟨[], rfl, h⟩
    · rintro ⟨ms, hms, h⟩
      cases hms
      exact h
  | cons path paths ih =>
    simp only [List.foldlM_cons, List.mapM_cons, Except.bind_eq_ok_iff, ih, loadNext_eq_ok_iff]
    constructor
    · rintro ⟨r₁, ⟨m, hread, hregister⟩, ms, hms, hrest⟩
      refine ⟨m :: ms, ⟨m, hread, ms, hms, rfl⟩, ?_⟩
      rw [List.foldlM_cons, hregister]
      exact hrest
    · rintro ⟨_, ⟨m, hread, ms, hms, heq⟩, h⟩
      cases heq
      rw [List.foldlM_cons] at h
      obtain ⟨r₁, hregister, hrest⟩ := Except.bind_eq_ok_iff.mp h
      exact ⟨r₁, ⟨m, hread, hregister⟩, ms, hms, hrest⟩

/-- Loading a directory makes the registry of the manifests in its documents. -/
theorem load_eq_ok_iff :
    ((load tree root).on log).1 = .ok r ↔
      ∃ paths ms, Document.discover tree root true = .ok paths ∧
        paths.mapM (read tree) = .ok ms ∧ ofManifests ms = .ok r := by
  simp only [load, Logged.on_inSpan, Logged.fst_on_bind, Logged.on_ofExcept,
    Except.bind_eq_ok_iff, Except.mapError_eq_ok_iff, fst_on_foldlM_loadDocument,
    foldlM_loadNext_eq_ok_iff, Logged.on_emit, Logged.on_pure]
  constructor
  · rintro ⟨paths, hpaths, r₁, ⟨ms, hms, hr⟩, _, -, h⟩
    cases h
    exact ⟨paths, ms, hpaths, hms, hr⟩
  · rintro ⟨paths, ms, hpaths, hms, hr⟩
    exact ⟨paths, hpaths, r, ⟨ms, hms, hr⟩, (), trivial, rfl⟩

end ItemMetrics.Registry
