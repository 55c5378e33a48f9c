import ItemMetrics.Files.Path

/-! The formats of documents, told apart by the extension of the file. -/

namespace ItemMetrics.Document

inductive Format where
  | yaml
  | json
  deriving DecidableEq, Repr

def Format.name : Format → String
  | .yaml => "YAML"
  | .json => "JSON"

def Format.ofExtension? (extension : String) : Option Format :=
  match String.ofList (extension.toList.map Char.toLower) with
  | "yaml" => some .yaml
  | "yml" => some .yaml
  | "json" => some .json
  | _ => none

/-- The format of a file. The case of ASCII letters in the extension does not matter. -/
def Format.ofPath? (path : String) : Option Format :=
  (Path.extension? path).bind ofExtension?

end ItemMetrics.Document
