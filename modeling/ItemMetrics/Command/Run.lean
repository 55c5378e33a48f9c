import ItemMetrics.Command.Evaluate

/-! Running a command on a tree of files. -/

namespace ItemMetrics.Command

def validationText (config : Option String) (session : Session) : String :=
  let source :=
    match config with
    | some path => "Config file: " ++ path
    | none => "Using default configuration (no config file given)"
  let count := session.registry.size
  let definitions :=
    match session.evaluator.types with
    | [] => "none"
    | ts => ", ".intercalate ts
  Report.line "Schema is valid" ++ Report.line source ++ Report.line s!"Registered types: {count}"
    ++ Report.line s!"Derived definitions: {definitions}"

/-- Says whether the schema can be loaded. -/
def validateSchema (tree : FileTree) (workingDir : String) (config : Option String) : Outcome :=
  match ((Session.load tree workingDir config).on .disabled).1 with
  | .ok session => .success (validationText config session)
  | .error e =>
    let reason := e.message
    { Outcome.failure e with
      stderr := Report.line s!"❌ Schema validation failed: {reason}", exit := some 1 }

/-- The lines about one registered type. -/
def typeText (session : Session) (m : Manifest) : String :=
  let metrics :=
    match session.evaluator.definitions.find? m.type.text with
    | some d =>
      let count := d.metrics.length
      s!"{count} derived metric(s)"
    | none => "no derived metrics"
  let first := Report.line s!"{m.type.text} (schema: {m.schema.text}) - {metrics}"
  match m.capabilities with
  | [] => first
  | cs => first ++ Report.line ("  capabilities: " ++ ", ".intercalate (cs.map Label.text))

def typesText (session : Session) : String :=
  match session.registry.manifests with
  | [] =>
    let path := session.settings.typesPath
    Report.line s!"No types registered under '{path}'"
  | ms => String.join (ms.map (typeText session))

/-- Lists the registered types. -/
def listTypes (tree : FileTree) (workingDir : String) (config : Option String) : Outcome :=
  match ((Session.load tree workingDir config).on .disabled).1 with
  | .ok session => .success (typesText session)
  | .error e => .failure e

/-- Writes the default settings to a file, which must not be there unless `force` is given. -/
def writeDefaults (tree : FileTree) (path : Option String) (force : Bool) : Outcome :=
  let path := path.getD Settings.fileName
  if tree.exists? path && !force then .failure (.alreadyThere path)
  else
    match tree.write path (.text Settings.defaultText) with
    | .ok _ =>
      { Outcome.success (Report.line s!"Generated default configuration file: {path}") with
        written := some (path, Settings.defaultText) }
    | .error cause => .failure (.unwritableSettings path cause)

/-- The files and directories that a command looks at besides its settings file. -/
def inputs (tree : FileTree) (workingDir : String) (i : Invocation) : List String :=
  match Settings.load tree workingDir i.config with
  | .error _ => []
  | .ok settings =>
    let schema := [settings.typesPath, settings.derivedPath]
    match i.command with
    | .evaluate [] _ _ _ => schema ++ [settings.itemsPath]
    | .evaluate paths _ _ _ => schema ++ paths
    | .validate => schema
    | .types => schema
    | .init _ _ => []

/-- The file that a command may write. -/
def output? (i : Invocation) : Option String :=
  match i.command with
  | .evaluate _ json _ _ => json
  | .init path _ => some (path.getD Settings.fileName)
  | _ => none

/-- Runs a command. `terminal` says whether the output is one. -/
def run (tree : FileTree) (workingDir : String) (terminal : Bool) (i : Invocation) : Outcome :=
  match i.command with
  | .evaluate paths json events color =>
    evaluateItems tree workingDir i.config paths json events (color.wantsColors terminal)
  | .validate => validateSchema tree workingDir i.config
  | .types => listTypes tree workingDir i.config
  | .init path force => writeDefaults tree path force

end ItemMetrics.Command
