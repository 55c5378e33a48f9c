import ItemMetrics.Document.Discovery
import ItemMetrics.Metric.Definition
import ItemMetrics.Registry.Basic

/-! The definitions loaded for the registered types, in the order of the types. -/

namespace ItemMetrics

/-- Why definitions could not be loaded. -/
inductive LoadError where
  | document (error : DocumentError)
  | definition (error : DefinitionError)
  | notMapping (path : String)
  | unregistered (path type : String)
  | duplicate (type : String)
  deriving DecidableEq, Repr

def LoadError.message : LoadError → String
  | .document e => e.message
  | .definition e => e.message
  | .notMapping path => s!"Derived definition '{path}' must contain a mapping"
  | .unregistered path type =>
    s!"derived definition '{path}' references type '{type}' which is not registered"
  | .duplicate type => s!"Duplicate derived definition for type '{type}'"

/-- The types of a list of definitions. -/
def typesOf (ds : List TypeDefinition) : List String :=
  ds.map (·.type.text)

/-- Definitions in increasing order of their types, which are distinct. -/
structure Definitions where
  toList : List TypeDefinition
  sorted : (typesOf toList).Pairwise (· < ·)

namespace Definitions

def empty : Definitions := ⟨[], List.Pairwise.nil⟩

instance : EmptyCollection Definitions := ⟨empty⟩

def types (ds : Definitions) : List String :=
  typesOf ds.toList

def find? (ds : Definitions) (type : String) : Option TypeDefinition :=
  ds.toList.find? (·.type.text == type)

/-- Puts a definition behind those of smaller types. -/
def place (d : TypeDefinition) : List TypeDefinition → List TypeDefinition
  | [] => [d]
  | e :: ds => if d.type.text < e.type.text then d :: e :: ds else e :: place d ds

theorem mem_typesOf_place {d : TypeDefinition} {ds : List TypeDefinition} {type : String} :
    type ∈ typesOf (place d ds) ↔ type = d.type.text ∨ type ∈ typesOf ds := by
  induction ds with
  | nil => simp [place, typesOf]
  | cons e ds ih =>
    rw [place]
    split
    · simp [typesOf]
    · simp only [typesOf, List.map_cons, List.mem_cons] at ih ⊢
      rw [ih]
      exact or_left_comm

theorem sorted_place {d : TypeDefinition} {ds : List TypeDefinition}
    (h : (typesOf ds).Pairwise (· < ·)) (hd : d.type.text ∉ typesOf ds) :
    (typesOf (place d ds)).Pairwise (· < ·) := by
  induction ds with
  | nil => simp [place, typesOf]
  | cons e ds ih =>
    obtain ⟨hhead, htail⟩ := List.pairwise_cons.mp h
    obtain ⟨hne, hd⟩ := not_or.mp (mt List.mem_cons.mpr hd)
    rw [place]
    split
    · next hlt =>
      refine List.pairwise_cons.mpr ⟨fun t ht => ?_, h⟩
      rcases List.mem_cons.mp ht with rfl | ht
      · exact hlt
      · exact String.lt_trans hlt (hhead t ht)
    · next hlt =>
      refine List.pairwise_cons.mpr ⟨fun t ht => ?_, ih htail hd⟩
      rcases mem_typesOf_place.mp ht with rfl | ht
      · exact Std.lt_of_le_of_ne (String.not_lt.mp hlt) (Ne.symm hne)
      · exact hhead t ht

/-- Adds a definition, unless its type is defined. -/
def insert? (ds : Definitions) (d : TypeDefinition) : Option Definitions :=
  if h : d.type.text ∈ ds.types then none else some ⟨place d ds.toList, sorted_place ds.sorted h⟩

def read (tree : FileTree) (path : String) : Except LoadError TypeDefinition := do
  let payload ← (Document.load tree path).mapError .document
  if !payload.isObject then .error (.notMapping path)
  else (TypeDefinition.ofJson payload path).mapError .definition

/-- Adds the definition of one document. Its type has to be registered and not yet defined. -/
def add (tree : FileTree) (registry : Registry) (ds : Definitions) (path : String) :
    Except LoadError Definitions := do
  let d ← read tree path
  if !registry.contains d.type.text then .error (.unregistered path d.type.text)
  else
    match ds.insert? d with
    | some ds => return ds
    | none => .error (.duplicate d.type.text)

/-- Reads the documents directly in `root`, in the order of their paths. -/
def load (tree : FileTree) (root : String) (registry : Registry) :
    Except LoadError Definitions := do
  let paths ← (Document.discover tree root false).mapError .document
  paths.foldlM (add tree registry) ∅

end Definitions
end ItemMetrics
