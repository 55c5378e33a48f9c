import ItemMetrics.Command.Arguments
import ItemMetrics.Command.Session
import ItemMetrics.Report.Json

/-! Evaluating items: load the schema and the items, check the items, evaluate them all, and only
then report. -/

namespace ItemMetrics.Command

/-- An item with the file it was read from. -/
structure LoadedItem where
  path : String
  payload : Json

/-- The name under which an item is reported. -/
def LoadedItem.name (item : LoadedItem) : String :=
  (Path.fileName? item.path).getD item.path

def loadItem (tree : FileTree) (path : String) : Except DocumentError LoadedItem :=
  (Document.load tree path).map fun payload => ⟨path, payload⟩

/-- The items at a path: those in the JSON documents of a directory, or the one in a file. -/
def itemsAt (tree : FileTree) (path : String) : Except DocumentError (List LoadedItem) := do
  if tree.isDirectory path then
    let files ← Document.discover tree path false
    (files.filter fun file => Document.Format.ofPath? file == some .json).mapM (loadItem tree)
  else (loadItem tree path).map ([·])

def loadItems (tree : FileTree) (paths : List String) : Except DocumentError (List LoadedItem) :=
  (paths.mapM (itemsAt tree)).map List.flatten

/-- What is wrong with the form of an item, if anything is. -/
def problem? (requiredFields : List String) (registry : Registry) (payload : Json) :
    Option String :=
  if !payload.isObject then some "item must be a mapping"
  else
    match requiredFields.filter fun field => (payload.get? field).isNone with
    | [] =>
      match payload.get? "item_type" with
      | none => some "missing fields item_type"
      | some (.string type) =>
        if registry.contains type then none else some s!"unknown item_type '{type}'"
      | some other =>
        let text := other.compact
        some s!"unknown item_type '{text}'"
    | missing =>
      some ("missing fields " ++ ", ".intercalate (missing.mergeSort fun a b => decide (a ≤ b)))

/-- The problems of the items, in the order of the items. -/
def checkItems (requiredFields : List String) (registry : Registry) (items : List LoadedItem) :
    List String :=
  items.filterMap fun item =>
    (problem? requiredFields registry item.payload).map fun text => item.name ++ ": " ++ text

def problemLines (problems : List String) : String :=
  String.join (problems.map fun p => Report.line ("Validation error: " ++ p))

/-- What the evaluation prepares before anything is printed. -/
inductive Prepared where
  | refused (problems : List String)
  | evaluated (registry : Registry) (items : List Report.Item)

def prepare (tree : FileTree) (workingDir : String) (config : Option String) (paths : List String) :
    Logged CommandError Prepared := do
  let session ← Session.load tree workingDir config
  let paths := if paths.isEmpty then [session.settings.itemsPath] else paths
  let items ← Logged.ofExcept ((loadItems tree paths).mapError .document)
  match checkItems session.settings.requiredFields session.registry items with
  | [] =>
    let results ← (session.evaluator.evaluateMany (items.map LoadedItem.payload)).adapt .evaluation
    return .evaluated session.registry (results.map fun (item, e) => .of item e)
  | problems => return .refused problems

def eventLines (log : Log) : String :=
  Report.line "Events"
    ++ String.join (log.events.toList.map fun e => Report.line e.record.compact)

/-- Reports on evaluated items: first to the reader, then to a file if one is asked for, and last the
events if they are asked for. -/
def report (tree : FileTree) (colors : Bool) (json : Option String) (events : Option Log)
    (registry : Registry) (items : List Report.Item) : Outcome :=
  match Report.console colors registry items with
  | (_, .error e) => .failure (.registry e)
  | (text, .ok ()) =>
    let tail := (events.map eventLines).getD ""
    match json with
    | none => .success (text ++ tail)
    | some path =>
      let document := Report.document items
      match tree.write path (.text document) with
      | .ok _ => { Outcome.success (text ++ tail) with written := some (path, document) }
      | .error cause => { Outcome.failure (.unwritableReport path cause) with stdout := text }

/-- Evaluates the items at the given paths, or those that the settings name. -/
def evaluateItems (tree : FileTree) (workingDir : String) (config : Option String)
    (paths : List String) (json : Option String) (events colors : Bool) : Outcome :=
  let log := if events then Log.recording else Log.disabled
  match (prepare tree workingDir config paths).on log with
  | (.error e, _) => .failure e
  | (.ok (.refused problems), _) =>
    { Outcome.failure (.invalidItems problems.length) with
      stderr := problemLines problems, exit := some 1 }
  | (.ok (.evaluated registry items), log) =>
    report tree colors json (if events then some log else none) registry items

end ItemMetrics.Command
