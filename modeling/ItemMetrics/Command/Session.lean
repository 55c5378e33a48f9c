import ItemMetrics.Evaluator.Basic
import ItemMetrics.Settings

/-! What the commands have in common: the errors they end with, what they leave behind, and the
schema they load. -/

namespace ItemMetrics

/-- Why a command fails. -/
inductive CommandError where
  | settings (error : SettingsError)
  | registry (error : RegistryError)
  | load (error : LoadError)
  | document (error : DocumentError)
  | evaluation (error : EvaluationError)
  | invalidItems (count : Nat)
  | alreadyThere (path : String)
  | unwritableReport (path : String) (cause : FileError)
  | unwritableSettings (path : String) (cause : FileError)
  deriving DecidableEq, Repr

def CommandError.message : CommandError → String
  | .settings e => e.message
  | .registry e => e.message
  | .load e => e.message
  | .document e => e.message
  | .evaluation e => e.message
  | .invalidItems count => s!"{count} item(s) failed validation"
  | .alreadyThere path => s!"'{path}' already exists, use --force to overwrite it"
  | .unwritableReport path _ => s!"writing JSON report to '{path}'"
  | .unwritableSettings path _ => s!"writing default configuration to {path}"

def CommandError.cause? : CommandError → Option String
  | .settings e => e.cause?
  | .registry (.document e) => e.cause?
  | .load (.document e) => e.cause?
  | .document e => e.cause?
  | .unwritableReport _ cause => some cause.message
  | .unwritableSettings _ cause => some cause.message
  | _ => none

/-- What a command leaves behind: what it printed, the exit code it asked for, and the file it wrote.
A file is written after everything else that could fail. -/
structure Outcome where
  result : Except CommandError Unit
  stdout : String
  stderr : String
  exit : Option Nat
  written : Option (String × String)

namespace Outcome

def success (stdout : String) : Outcome :=
  ⟨.ok (), stdout, "", none, none⟩

def failure (e : CommandError) : Outcome :=
  ⟨.error e, "", "", none, none⟩

/-- The files after the command. -/
def files (o : Outcome) (tree : FileTree) : FileTree :=
  match o.written with
  | none => tree
  | some (path, text) =>
    match tree.write path (.text text) with
    | .ok tree => tree
    | .error _ => tree

end Outcome

/-- The settings with the schema loaded as they say. -/
structure Session where
  settings : Settings
  evaluator : Evaluator

namespace Session

def registry (s : Session) : Registry :=
  s.evaluator.registry

def load (tree : FileTree) (workingDir : String) (config : Option String) :
    Logged CommandError Session := do
  let settings ← Logged.ofExcept ((Settings.load tree workingDir config).mapError .settings)
  let registry ← (Registry.load tree settings.typesPath).adapt .registry
  let evaluator ←
    Logged.ofExcept ((Evaluator.new tree settings.derivedPath registry).mapError .load)
  return { settings, evaluator }

end Session
end ItemMetrics
