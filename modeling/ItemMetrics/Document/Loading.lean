import ItemMetrics.Document.Format
import ItemMetrics.Files.Tree
import ItemMetrics.Json.Reader
import ItemMetrics.Text.Blank
import ItemMetrics.Yaml.Value

/-! Reading a document from the files of a tree. -/

namespace ItemMetrics

/-- Why the documents of a directory could not be found, or one could not be read. -/
inductive DocumentError where
  | unlistable (root : String)
  | illegible (path : String)
  | unsupported (path : String)
  | unreadable (path : String) (cause : FileError)
  | badYaml (path : String) (cause : Yaml.Fault)
  | badJson (path : String) (cause : Json.ReadError)
  deriving DecidableEq, Repr

/-- The step that failed, without its cause. -/
def DocumentError.message : DocumentError → String
  | .unlistable root => s!"scanning document directory '{root}'"
  | .illegible path => s!"document path '{path}' is not valid UTF-8"
  | .unsupported path => s!"unsupported document format: '{path}'"
  | .unreadable path _ => s!"reading document '{path}'"
  | .badYaml path _ => s!"parsing YAML document '{path}'"
  | .badJson path _ => s!"parsing JSON document '{path}'"

def DocumentError.cause? : DocumentError → Option String
  | .unlistable _ => some "a directory cannot be listed"
  | .illegible _ => none
  | .unsupported _ => none
  | .unreadable _ cause => some cause.message
  | .badYaml _ cause => some cause.message
  | .badJson _ cause => some cause.message

namespace Document

def parse (path : String) (format : Format) (text : String) : Except DocumentError Json :=
  match format with
  | .yaml => (Yaml.read text).mapError (.badYaml path)
  | .json => (Json.read text).mapError (.badJson path)

/-- The value of the document at a path. A document that holds only blanks is an empty object. -/
def load (tree : FileTree) (path : String) : Except DocumentError Json := do
  match Format.ofPath? path with
  | none => .error (.unsupported path)
  | some format =>
    let text ← (tree.readText path).mapError (.unreadable path)
    if Text.allBlank text then return .object [] else parse path format text

end Document
end ItemMetrics
