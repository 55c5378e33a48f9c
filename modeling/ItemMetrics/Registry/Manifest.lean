import ItemMetrics.Document.Field

/-! Manifests: the type of an item, the schema it follows and what it can do. -/

namespace ItemMetrics

/-- Why a manifest is refused. -/
inductive ManifestError where
  | blankType
  | blankSchema (type : String)
  | notMapping (source : String)
  | field (error : FieldError)
  | missingCapability (type capability : String)
  deriving DecidableEq, Repr

def ManifestError.message : ManifestError → String
  | .blankType => "type manifests require a non-empty type key"
  | .blankSchema type => s!"type manifest '{type}' requires a non-empty schema reference"
  | .notMapping source => s!"type manifest '{source}' must contain a mapping"
  | .field e => e.message
  | .missingCapability type capability => s!"type '{type}' does not support '{capability}'"

structure Manifest where
  type : Label
  schema : Label
  capabilities : List Label
  deriving DecidableEq

namespace Manifest

/-- Builds a manifest from plain texts. Blank capabilities are left out. -/
def ofStrings (type schema : String) (capabilities : List String) : Except ManifestError Manifest :=
  match Label.ofString? type with
  | none => .error .blankType
  | some type =>
    match Label.ofString? schema with
    | none => .error (.blankSchema type.text)
    | some schema => .ok ⟨type, schema, (capabilities.filterMap Label.ofString?).eraseDups⟩

/-- Reads a manifest document. A blank capability is an error here. -/
def ofJson (payload : Json) (source : String) : Except ManifestError Manifest := do
  if !payload.isObject then .error (.notMapping source)
  else
    let type ← (payload.requireLabel "type" s!"type manifest in {source}").mapError .field
    let owner := s!"type '{type.text}' in {source}"
    let schema ← (payload.requireLabel "schema" owner).mapError .field
    let capabilities ←
      (payload.labels "capabilities" s!"'capabilities' for {owner}").mapError .field
    return ⟨type, schema, capabilities.eraseDups⟩

def supports (m : Manifest) (capability : String) : Bool :=
  m.capabilities.any (·.text == capability)

def requireCapability (m : Manifest) (capability : String) : Except ManifestError Unit :=
  if m.supports capability then .ok () else .error (.missingCapability m.type.text capability)

def toJson (m : Manifest) : Json :=
  .object
    [("type_key", .string m.type.text), ("schema_ref", .string m.schema.text),
      ("capabilities", .strings (m.capabilities.map Label.text))]

end Manifest
end ItemMetrics
