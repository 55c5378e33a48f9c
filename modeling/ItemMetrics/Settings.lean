import ItemMetrics.Files.Tree
import ItemMetrics.Json.Printer
import ItemMetrics.Text.Blank
import ItemMetrics.Toml.Reader

/-! The settings of a run: where the schema and the items are, and which fields an item must have.
Directories are seen from the one that holds the settings file. -/

namespace ItemMetrics

/-- Why settings could not be had. -/
inductive SettingsError where
  | unreadable (path : String) (cause : FileError)
  | badToml (path : String) (cause : Toml.Fault)
  | badShape (path : String)
  | blankDirectory (name : String)
  | blankField (position : Nat)
  deriving DecidableEq, Repr

/-- The step that failed, without its cause. -/
def SettingsError.message : SettingsError → String
  | .unreadable path _ => s!"reading kernel-metrics configuration file '{path}'"
  | .badToml path _ => s!"parsing configuration file '{path}'"
  | .badShape path => s!"parsing configuration file '{path}'"
  | .blankDirectory name => s!"{name} must not be empty"
  | .blankField position => s!"required_item_fields entry #{position} must not be empty"

def SettingsError.cause? : SettingsError → Option String
  | .unreadable _ cause => some cause.message
  | .badToml _ cause => some cause.message
  | .badShape _ => some "unknown key or value of the wrong type"
  | _ => none

structure Settings where
  schemaRoot : String
  typesDir : String
  derivedDir : String
  itemsDir : String
  requiredFields : List String
  base : String
  deriving DecidableEq, Repr

namespace Settings

def fileName : String := "kernel-metrics.toml"

/-- The settings that a file without members has, seen from a directory. -/
def default (base : String) : Settings :=
  { schemaRoot := "schema", typesDir := "types", derivedDir := "derived", itemsDir := "items"
    requiredFields := ["id", "item_type", "fields"], base }

/-- The lines of the settings file that spells out the defaults. -/
def defaultLines : List String :=
  ["# kernel-metrics configuration",
    "#",
    "# Relative paths are resolved against the directory holding this file.",
    "",
    "# Root directory of the schema tree",
    "schema_root = \"schema\"",
    "",
    "# Directory of type manifests, relative to `schema_root`",
    "types_dir = \"types\"",
    "",
    "# Directory of derived metric definitions, relative to `schema_root`",
    "derived_dir = \"derived\"",
    "",
    "# Directory of item payloads evaluated when no paths are given to `evaluate`",
    "items_dir = \"items\"",
    "",
    "# Top-level fields every item payload must carry before it is evaluated",
    "required_item_fields = [\"id\", \"item_type\", \"fields\"]"]

/-- The settings file that spells out the defaults. -/
def defaultText : String :=
  String.join (defaultLines.map (· ++ "\n"))

def string? : Toml.Value → Option String
  | .string s => some s
  | _ => none

def strings? : Toml.Value → Option (List String)
  | .array xs => xs.mapM string?
  | _ => none

/-- Takes one member of a settings file. Unknown keys and values of another type are refused. -/
def set? (s : Settings) : String × Toml.Value → Option Settings
  | (key, v) =>
    if key = "schema_root" then (string? v).map ({ s with schemaRoot := · })
    else if key = "types_dir" then (string? v).map ({ s with typesDir := · })
    else if key = "derived_dir" then (string? v).map ({ s with derivedDir := · })
    else if key = "items_dir" then (string? v).map ({ s with itemsDir := · })
    else if key = "required_item_fields" then (strings? v).map ({ s with requiredFields := · })
    else none

/-- The settings that the members of a file make of the defaults. -/
def ofMembers? (base : String) (ms : List (String × Toml.Value)) : Option Settings :=
  ms.foldlM set? (default base)

/-- The directories with their names, in the order in which they are checked. -/
def directories (s : Settings) : List (String × String) :=
  [("schema_root", s.schemaRoot), ("types_dir", s.typesDir), ("derived_dir", s.derivedDir),
    ("items_dir", s.itemsDir)]

/-- Refuses a blank directory, and a blank field name. -/
def check (s : Settings) : Except SettingsError Unit :=
  match s.directories.find? fun d => Text.allBlank d.2 with
  | some d => .error (.blankDirectory d.1)
  | none =>
    match s.requiredFields.findIdx? Text.allBlank with
    | some i => .error (.blankField (i + 1))
    | none => .ok ()

/-- The settings in the text of the file at a path, blank or not. -/
def decode (path base text : String) : Except SettingsError Settings := do
  let ms ← (Toml.read text).mapError (.badToml path)
  match ofMembers? base ms with
  | none => .error (.badShape path)
  | some s => return s

/-- The settings in the text of the file at a path. -/
def parse (path base text : String) : Except SettingsError Settings := do
  let s ← decode path base text
  s.check
  return s

/-- The settings of a run that starts in a directory. Without a given path the file in that directory
is taken or, if there is none, the text that spells out the defaults. -/
def load (tree : FileTree) (workingDir : String) (given : Option String) :
    Except SettingsError Settings :=
  let path := given.getD (Path.join workingDir fileName)
  match tree.readText path with
  | .ok text => parse path ((Path.parent? path).getD workingDir) text
  | .error .notFound =>
    match given with
    | none => decode path workingDir defaultText
    | some _ => .error (.unreadable path .notFound)
  | .error e => .error (.unreadable path e)

def schemaPath (s : Settings) : String :=
  Path.join s.base s.schemaRoot

def typesPath (s : Settings) : String :=
  Path.join s.schemaPath s.typesDir

def derivedPath (s : Settings) : String :=
  Path.join s.schemaPath s.derivedDir

def itemsPath (s : Settings) : String :=
  Path.join s.base s.itemsDir

/-- Whether the settings are the defaults seen from a directory. -/
def isDefault (s : Settings) (workingDir : String) : Bool :=
  { s with base := "" } == default "" && Path.parts s.base == Path.parts workingDir

def toJson (s : Settings) : Json :=
  .object
    [("schema_root", .string s.schemaRoot), ("types_dir", .string s.typesDir),
      ("derived_dir", .string s.derivedDir), ("items_dir", .string s.itemsDir),
      ("required_item_fields", .strings s.requiredFields)]

end Settings
end ItemMetrics
