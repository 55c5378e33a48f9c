import ItemMetrics.Document.Discovery
import ItemMetrics.Registry.Manifest
import ItemMetrics.Trace.Log

/-! The registry of the types of items, in the order in which they were registered. Each type is
registered once. -/

namespace ItemMetrics

/-- Why a registry could not be built or asked. -/
inductive RegistryError where
  | document (error : DocumentError)
  | manifest (error : ManifestError)
  | duplicate (type : String)
  | duplicateIn (type source : String)
  | unregistered (type : String)
  deriving DecidableEq, Repr

def RegistryError.message : RegistryError → String
  | .document e => e.message
  | .manifest e => e.message
  | .duplicate type => s!"duplicate type key '{type}' detected"
  | .duplicateIn type source => s!"duplicate type key '{type}' detected in '{source}'"
  | .unregistered type => s!"type '{type}' is not registered"

structure Registry where
  manifests : List Manifest
  nodup : (manifests.map Manifest.type).Nodup

namespace Registry

def empty : Registry := ⟨[], List.nodup_nil⟩

instance : EmptyCollection Registry := ⟨empty⟩

/-- The registered types in the order of registration. -/
def types (r : Registry) : List String :=
  r.manifests.map (·.type.text)

def contains (r : Registry) (type : String) : Bool :=
  r.types.contains type

def size (r : Registry) : Nat :=
  r.manifests.length

def isEmpty (r : Registry) : Bool :=
  r.manifests.isEmpty

def get (r : Registry) (type : String) : Except RegistryError Manifest :=
  match r.manifests.find? (·.type.text == type) with
  | some m => .ok m
  | none => .error (.unregistered type)

theorem contains_iff {r : Registry} {l : Label} :
    r.contains l.text = true ↔ l ∈ r.manifests.map Manifest.type := by
  simp only [contains, types, List.contains_iff_mem, List.mem_map]
  constructor
  · rintro ⟨m, hm, h⟩
    exact ⟨m, hm, Label.ext h⟩
  · rintro ⟨m, hm, h⟩
    exact ⟨m, hm, congrArg Label.text h⟩

/-- Adds a manifest at the end, unless its type is registered. -/
def insert? (r : Registry) (m : Manifest) : Option Registry :=
  if h : r.contains m.type.text = true then none
  else
    some ⟨r.manifests ++ [m], by
      rw [List.map_append, List.map_singleton, List.nodup_append]
      refine ⟨r.nodup, by simp, ?_⟩
      intro a ha b hb
      rw [List.mem_singleton.mp hb]
      exact fun hab => h (contains_iff.mpr (hab ▸ ha))⟩

def register (r : Registry) (m : Manifest) : Except RegistryError Registry :=
  match r.insert? m with
  | some r => .ok r
  | none => .error (.duplicate m.type.text)

/-- Registers a manifest in place: the answer, and the registry that is left. -/
def tryRegister (r : Registry) (m : Manifest) : Except RegistryError Unit × Registry :=
  match r.register m with
  | .ok r => (.ok (), r)
  | .error e => (.error e, r)

/-- Builds a registry of manifests in their order. -/
def ofManifests (ms : List Manifest) : Except RegistryError Registry :=
  ms.foldlM register ∅

def read (tree : FileTree) (path : String) : Except RegistryError Manifest := do
  let payload ← (Document.load tree path).mapError .document
  (Manifest.ofJson payload path).mapError .manifest

/-- Registers the manifest of one document, and says so in the log. -/
def loadDocument (tree : FileTree) (span : Span) (r : Registry) (path : String) :
    Logged RegistryError Registry := do
  let manifest ← Logged.ofExcept (read tree path)
  match r.insert? manifest with
  | none => throw (.duplicateIn manifest.type.text path)
  | some r =>
    Logged.emit "registry.type.loaded"
      [("span_id", .string span.id), ("type_key", .string manifest.type.text),
        ("source", .string path)]
    return r

/-- Registers the manifests of all documents below `root`, in the order of their paths. -/
def load (tree : FileTree) (root : String) : Logged RegistryError Registry :=
  Logged.inSpan "registry.load_types" [("schema_root", .string root)] fun span => do
    let paths ← Logged.ofExcept ((Document.discover tree root true).mapError .document)
    let r ← paths.foldlM (loadDocument tree span) ∅
    Logged.emit "registry.load_complete" [("span_id", .string span.id), ("count", .ofNat r.size)]
    return r

end Registry
end ItemMetrics
