import ItemMetrics.Proofs.Keys
import ItemMetrics.Proofs.Registry.Loading

/-! # The states of a registry

A registry starts empty, from manifests or from a directory, and manifests are registered one by one
after that (`Registry.Reachable`). It only grows at its end: a manifest of a new type is appended and
any other refused, so what is found under a type once is found under it for ever
(`Registry.consistent_of_reachable`). -/

namespace ItemMetrics

namespace Manifest

/-- The manifests there can be: each is built from texts or read from a document. -/
inductive Built : Manifest → Prop
  | ofStrings {type schema : String} {capabilities : List String} {m : Manifest} :
    ofStrings type schema capabilities = .ok m → Built m
  | ofJson {payload : Json} {source : String} {m : Manifest} :
    ofJson payload source = .ok m → Built m

theorem nodup_of_ofStrings {type schema : String} {capabilities : List String} {m : Manifest}
    (h : ofStrings type schema capabilities = .ok m) : m.capabilities.Nodup := by
  unfold ofStrings at h
  split at h
  · cases h
  · split at h
    · cases h
    · cases h
      exact nodup_eraseDups _

theorem nodup_of_ofJson {payload : Json} {source : String} {m : Manifest}
    (h : ofJson payload source = .ok m) : m.capabilities.Nodup := by
  unfold ofJson at h
  split at h
  · cases h
  · obtain ⟨type, -, h⟩ := Except.bind_eq_ok_iff.mp h
    obtain ⟨schema, -, h⟩ := Except.bind_eq_ok_iff.mp h
    obtain ⟨capabilities, -, h⟩ := Except.bind_eq_ok_iff.mp h
    cases h
    exact nodup_eraseDups _

/-- A manifest names no capability twice, however it was built. -/
theorem Built.nodup_capabilities {m : Manifest} (h : m.Built) : m.capabilities.Nodup := by
  cases h with
  | ofStrings h => exact nodup_of_ofStrings h
  | ofJson h => exact nodup_of_ofJson h

end Manifest

namespace Registry

variable {r r' : Registry} {m : Manifest} {ms : List Manifest} {type : String}

/-! ## Looking up -/

theorem contains_eq_true_iff : r.contains type = true ↔ type ∈ r.types :=
  List.contains_iff_mem

theorem nodup_types (r : Registry) : r.types.Nodup := by
  have h := r.nodup.map fun a b => Label.ext (a := a) (b := b)
  rwa [List.map_map] at h

theorem get_eq_ok_iff : r.get type = .ok m ↔ m ∈ r.manifests ∧ m.type.text = type := by
  rw [get, ← find?_key_eq_some_iff r.nodup_types]
  split <;> simp [*]

theorem exists_get_iff : (∃ m, r.get type = .ok m) ↔ type ∈ r.types := by
  simp only [get_eq_ok_iff, mem_types_iff]

/-- A look-up that fails names the type. -/
theorem get_eq_error_iff {e : RegistryError} :
    r.get type = .error e ↔ type ∉ r.types ∧ e = .unregistered type := by
  rw [← exists_get_iff, get]
  split <;> simp [*, eq_comm]

/-! ## Registering in place -/

/-- A manifest of a type that is taken is refused and changes nothing. -/
theorem tryRegister_of_mem (h : m.type.text ∈ r.types) :
    r.tryRegister m = (.error (.duplicate m.type.text), r) := by
  rw [tryRegister, register_eq_error_iff.mpr ⟨h, rfl⟩]

/-- A manifest of a new type goes to the end. -/
theorem exists_tryRegister_of_not_mem (h : m.type.text ∉ r.types) :
    ∃ r', r.tryRegister m = (.ok (), r') ∧ r'.manifests = r.manifests ++ [m] := by
  obtain ⟨r', hr'⟩ := Option.ne_none_iff_exists'.mp (mt insert?_eq_none_iff.mp h)
  have hlist := (insert?_eq_some_iff.mp hr').2
  refine ⟨r', ?_, hlist⟩
  rw [tryRegister, register_eq_ok_iff.mpr ⟨h, hlist⟩]

theorem prefix_tryRegister (r : Registry) (m : Manifest) :
    r.manifests <+: (r.tryRegister m).2.manifests := by
  by_cases h : m.type.text ∈ r.types
  · have hsame : (r.tryRegister m).2 = r := congrArg Prod.snd (tryRegister_of_mem h)
    exact hsame.symm ▸ List.prefix_refl _
  · obtain ⟨r', hr', hlist⟩ := exists_tryRegister_of_not_mem h
    rw [hr', hlist]
    exact List.prefix_append _ _

/-- The registry after some manifests were offered to it, whether it took them or not. -/
def registerAll (r : Registry) (ms : List Manifest) : Registry :=
  ms.foldl (fun r m => (r.tryRegister m).2) r

theorem prefix_registerAll (r : Registry) (ms : List Manifest) :
    r.manifests <+: (r.registerAll ms).manifests := by
  induction ms generalizing r with
  | nil => exact List.prefix_refl _
  | cons m ms ih => exact (prefix_tryRegister r m).trans (ih (r.tryRegister m).2)

/-- What is found in a registry is found in every registry that it has grown to. -/
theorem get_of_prefix (h : r.manifests <+: r'.manifests) (hm : r.get type = .ok m) :
    r'.get type = .ok m := by
  obtain ⟨hmem, htype⟩ := get_eq_ok_iff.mp hm
  exact get_eq_ok_iff.mpr ⟨h.subset hmem, htype⟩

/-! ## All states -/

/-- The registries there can be. -/
inductive Reachable : Registry → Prop
  | empty : Reachable ∅
  | ofManifests {ms : List Manifest} {r : Registry} :
    (∀ m ∈ ms, m.Built) → ofManifests ms = .ok r → Reachable r
  | load {tree : FileTree} {root : String} {log : Log} {r : Registry} :
    ((load tree root).on log).1 = .ok r → Reachable r
  | register {r : Registry} {m : Manifest} :
    Reachable r → m.Built → Reachable (r.tryRegister m).2

theorem built_of_load {tree : FileTree} {root : String} {log : Log}
    (h : ((load tree root).on log).1 = .ok r) (hm : m ∈ r.manifests) : m.Built := by
  obtain ⟨paths, ms, -, hms, hr⟩ := load_eq_ok_iff.mp h
  rw [(ofManifests_eq_ok_iff.mp hr).2, Except.mem_iff_of_mapM hms] at hm
  obtain ⟨path, -, hread⟩ := hm
  obtain ⟨payload, -, hmanifest⟩ := Except.bind_eq_ok_iff.mp hread
  exact .ofJson (Except.mapError_eq_ok_iff.mp hmanifest)

theorem Reachable.built (h : r.Reachable) (hm : m ∈ r.manifests) : m.Built := by
  induction h with
  | empty => cases hm
  | ofManifests hbuilt hr =>
    rw [(ofManifests_eq_ok_iff.mp hr).2] at hm
    exact hbuilt m hm
  | load hr => exact built_of_load hr hm
  | @register r m' _ hm' ih =>
    by_cases hmem : m'.type.text ∈ r.types
    · rw [tryRegister_of_mem hmem] at hm
      exact ih hm
    · obtain ⟨r', hr', hlist⟩ := exists_tryRegister_of_not_mem hmem
      rw [hr', hlist, List.mem_append, List.mem_singleton] at hm
      rcases hm with hm | rfl
      · exact ih hm
      · exact hm'

/-- The accessors of a registry agree with each other and with its manifests, and all names in it are
in their normal form. -/
structure Consistent (r : Registry) : Prop where
  nodup : r.types.Nodup
  normal : ∀ type ∈ r.types, type ≠ "" ∧ Text.trim type = type
  capabilities : ∀ m ∈ r.manifests, (m.capabilities.map Label.text).Nodup ∧
    ∀ c ∈ m.capabilities.map Label.text, c ≠ "" ∧ Text.trim c = c
  types_eq : r.types = r.manifests.map (·.type.text)
  size_eq : r.size = r.types.length
  contains_iff : ∀ type, r.contains type = true ↔ type ∈ r.types
  get_iff : ∀ type, (∃ m, r.get type = .ok m) ↔ type ∈ r.types
  type_of_get : ∀ type m, r.get type = .ok m → m ∈ r.manifests ∧ m.type.text = type

theorem Reachable.consistent (h : r.Reachable) : r.Consistent where
  nodup := r.nodup_types
  normal := by
    intro type htype
    obtain ⟨m, -, rfl⟩ := mem_types_iff.mp htype
    exact ⟨m.type.nonempty, m.type.trimmed⟩
  capabilities := by
    intro m hm
    refine ⟨(h.built hm).nodup_capabilities.map fun a b => Label.ext, fun c hc => ?_⟩
    obtain ⟨l, -, rfl⟩ := List.mem_map.mp hc
    exact ⟨l.nonempty, l.trimmed⟩
  types_eq := rfl
  size_eq := (List.length_map _).symm
  contains_iff := fun type => contains_eq_true_iff
  get_iff := fun type => exists_get_iff
  type_of_get := fun type m => get_eq_ok_iff.mp

/-- A type that is registered keeps its manifest in every registry that this one has grown to. -/
theorem get_eq_of_prefix (h : r.manifests <+: r'.manifests) (htype : type ∈ r.types) :
    r'.get type = r.get type := by
  obtain ⟨m, hm⟩ := exists_get_iff.mpr htype
  rw [hm, get_of_prefix h hm]

/-- **A registry is consistent in every state and grows only at its end.** A manifest is refused
exactly when its type is taken, and then nothing changes; else it is appended. However many are
offered, what was there stays in front and is found as before. -/
theorem consistent_of_reachable (h : r.Reachable) :
    r.Consistent ∧
    (∀ m : Manifest,
      ((∃ e, (r.tryRegister m).1 = .error e) ↔ m.type.text ∈ r.types) ∧
      (m.type.text ∈ r.types → r.tryRegister m = (.error (.duplicate m.type.text), r)) ∧
      (m.type.text ∉ r.types →
        ∃ r', r.tryRegister m = (.ok (), r') ∧ r'.manifests = r.manifests ++ [m])) ∧
    ∀ ms : List Manifest, r.manifests <+: (r.registerAll ms).manifests ∧
      ∀ type ∈ r.types, (r.registerAll ms).get type = r.get type := by
  refine ⟨h.consistent, fun m => ⟨⟨?_, ?_⟩, tryRegister_of_mem, exists_tryRegister_of_not_mem⟩,
    fun ms => ⟨prefix_registerAll r ms, fun type htype => ?_⟩⟩
  · rintro ⟨e, he⟩
    by_contra hmem
    obtain ⟨r', hr', -⟩ := exists_tryRegister_of_not_mem hmem
    rw [hr'] at he
    cases he
  · intro hmem
    exact ⟨_, congrArg Prod.fst (tryRegister_of_mem hmem)⟩
  · exact get_eq_of_prefix (prefix_registerAll r ms) htype

theorem consistent_of_reachable_sample :
    ∃ m r, Manifest.ofStrings " note " "types/note.json" ["a", "", " a "] = .ok m ∧
      m.capabilities.map Label.text = ["a"] ∧
      (∅ : Registry).tryRegister m = (.ok (), r) ∧ r.manifests = [m] ∧
      r.tryRegister m = (.error (.duplicate m.type.text), r) ∧
      (r.registerAll [m, m]).get m.type.text = .ok m := by
  have hm : (Manifest.ofStrings " note " "types/note.json" ["a", "", " a "]).map
      (·.capabilities.map Label.text) = .ok ["a"] := by decide +kernel
  obtain ⟨m, hm, hcapabilities⟩ := Except.map_eq_ok_iff.mp hm
  have hempty : m.type.text ∉ (∅ : Registry).types := List.not_mem_nil
  obtain ⟨r, hr, hone⟩ := ((consistent_of_reachable .empty).2.1 m).2.2 hempty
  have hreachable : r.Reachable := by
    have h := Reachable.empty.register (.ofStrings hm)
    rwa [hr] at h
  have hmem : m ∈ r.manifests := hone ▸ List.mem_singleton_self m
  have htype : m.type.text ∈ r.types := mem_types_iff.mpr ⟨m, hmem, rfl⟩
  obtain ⟨-, hregister, hall⟩ := consistent_of_reachable hreachable
  refine ⟨m, r, hm, hcapabilities, hr, hone, (hregister m).2.1 htype, ?_⟩
  rw [(hall [m, m]).2 _ htype, get_eq_ok_iff]
  exact ⟨hmem, rfl⟩

end Registry
end ItemMetrics
