import ItemMetrics.Json.Basic
import ItemMetrics.Text.Blank

/-! Fields of a document that hold a name or a list of names. -/

namespace ItemMetrics

/-- Why a field could not be read. `owner` and `field` describe the place to the reader. -/
inductive FieldError where
  | notText (key owner : String)
  | notSequence (field : String)
  | badEntry (field : String)
  deriving DecidableEq, Repr

def FieldError.message : FieldError → String
  | .notText key owner => s!"'{key}' for {owner} must be a non-empty string"
  | .notSequence field => s!"{field} must be a sequence"
  | .badEntry field => s!"{field} must contain non-empty strings"

namespace Json

def label? (value : Json) : Option Label :=
  value.string?.bind Label.ofString?

/-- The name held by a field that has to be there. -/
def requireLabel (payload : Json) (key owner : String) : Except FieldError Label :=
  match (payload.get? key).bind label? with
  | some l => .ok l
  | none => .error (.notText key owner)

/-- The names held by a field that may be absent or null. -/
def labels (payload : Json) (key field : String) : Except FieldError (List Label) :=
  match payload.get? key with
  | none => .ok []
  | some .null => .ok []
  | some (.array items) =>
    items.mapM fun item =>
      match item.label? with
      | some l => .ok l
      | none => .error (.badEntry field)
  | some _ => .error (.notSequence field)

end Json

end ItemMetrics
