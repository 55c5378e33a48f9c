/-! The command line: one command with its arguments, and options for all commands anywhere. -/

namespace ItemMetrics

/-- When reports are coloured. -/
inductive ColorMode where
  | always
  | never
  | auto
  deriving DecidableEq, Repr

def ColorMode.ofName? : String → Option ColorMode
  | "always" => some .always
  | "never" => some .never
  | "auto" => some .auto
  | _ => none

/-- Whether to colour, given whether the output is a terminal. -/
def ColorMode.wantsColors (mode : ColorMode) (terminal : Bool) : Bool :=
  match mode with
  | .always => true
  | .never => false
  | .auto => terminal

inductive LogLevel where
  | none
  | error
  | warn
  | info
  | debug
  | trace
  deriving DecidableEq, Repr

def LogLevel.ofName? : String → Option LogLevel
  | "none" => some .none
  | "error" => some .error
  | "warn" => some .warn
  | "info" => some .info
  | "debug" => some .debug
  | "trace" => some .trace
  | _ => Option.none

inductive Command where
  /-- Evaluate items and report on them. -/
  | evaluate (paths : List String) (json : Option String) (events : Bool) (color : ColorMode)
  /-- Check the schema. -/
  | validate
  /-- List the registered types. -/
  | types
  /-- Write a settings file with the defaults. -/
  | init (path : Option String) (force : Bool)
  deriving DecidableEq, Repr

structure Invocation where
  config : Option String
  logLevel : LogLevel
  command : Command
  deriving DecidableEq, Repr

/-- Why a command line is refused. -/
inductive UsageError where
  | missingCommand
  | unknownCommand (name : String)
  | unknownOption (option : String)
  | missingValue (option : String)
  | invalidValue (option value : String)
  | unexpectedArgument (argument : String)
  deriving DecidableEq, Repr

def UsageError.message : UsageError → String
  | .missingCommand => "a command is required: evaluate, validate, types or init"
  | .unknownCommand name => s!"unrecognized command '{name}'"
  | .unknownOption option => s!"unexpected option '{option}'"
  | .missingValue option => s!"a value is required for '{option}'"
  | .invalidValue option value => s!"invalid value '{value}' for '{option}'"
  | .unexpectedArgument argument => s!"unexpected argument '{argument}'"

namespace Invocation

/-- The options that take a value. -/
inductive Setting where
  | config
  | logLevel
  | json
  | color
  deriving DecidableEq

/-- The options that take none. -/
inductive Flag where
  | events
  | force
  deriving DecidableEq

/-- An argument of the command line by itself. -/
inductive Argument where
  | plain (s : String)
  | flag (f : Flag)
  /-- An option with its value, or without one when the next argument is its value. -/
  | setting (s : Setting) (option : String) (value : Option String)

/-- What is written in front of the first equals sign, and what is written behind it. -/
def splitEquals (cs : List Char) : List Char × Option (List Char) :=
  match cs.span (· != '=') with
  | (name, []) => (name, none)
  | (name, _ :: value) => (name, some value)

def Setting.ofName? : String → Option Setting
  | "--config" => some .config
  | "--log-level" => some .logLevel
  | "--json" => some .json
  | "--color" => some .color
  | _ => none

def Flag.ofName? : String → Option Flag
  | "--events" => some .events
  | "--force" => some .force
  | _ => none

def Argument.ofString (s : String) : Except UsageError Argument :=
  match s.toList with
  | ['-', 'c'] => .ok (.setting .config "-c" none)
  | '-' :: 'c' :: '=' :: value => .ok (.setting .config "-c" (some (String.ofList value)))
  | '-' :: 'c' :: value => .ok (.setting .config "-c" (some (String.ofList value)))
  | '-' :: '-' :: rest =>
    let (name, value) := splitEquals ('-' :: '-' :: rest)
    let name := String.ofList name
    match Setting.ofName? name, Flag.ofName? name, value with
    | some s, _, value => .ok (.setting s name (value.map String.ofList))
    | none, some f, none => .ok (.flag f)
    | none, _, _ => .error (.unknownOption name)
  | '-' :: _ :: _ => .error (.unknownOption s)
  | _ => .ok (.plain s)

/-- The parts of a command line, sorted. -/
structure Parts where
  plain : List String
  settings : List (Setting × String)
  flags : List Flag

/-- Sorts the arguments. Behind two hyphens that stand alone all arguments are plain. -/
def sort : List String → Except UsageError Parts
  | [] => .ok ⟨[], [], []⟩
  | "--" :: rest => .ok ⟨rest, [], []⟩
  | arg :: rest => do
    match ← Argument.ofString arg with
    | .plain s =>
      let ps ← sort rest
      return { ps with plain := s :: ps.plain }
    | .flag f =>
      let ps ← sort rest
      return { ps with flags := f :: ps.flags }
    | .setting s _ (some value) =>
      let ps ← sort rest
      return { ps with settings := (s, value) :: ps.settings }
    | .setting s option none =>
      match rest with
      | [] => .error (.missingValue option)
      | value :: rest =>
        let ps ← sort rest
        return { ps with settings := (s, value) :: ps.settings }

/-- The value given last for an option. -/
def Parts.get? (ps : Parts) (s : Setting) : Option String :=
  ps.settings.reverse.lookup s

/-- The value of an option that has to be one of several names. -/
def Parts.choice {α : Type} (ps : Parts) (s : Setting) (option : String) (ofName? : String → Option α)
    (default : α) : Except UsageError α :=
  match ps.get? s with
  | none => .ok default
  | some name =>
    match ofName? name with
    | some v => .ok v
    | none => .error (.invalidValue option name)

/-- Refuses options that a command does not have. -/
def Parts.allow (ps : Parts) (settings : List Setting) (flags : List Flag) :
    Except UsageError Unit :=
  if ps.settings.all fun s => s.1 == .config || s.1 == .logLevel || settings.contains s.1 then
    if ps.flags.all flags.contains then .ok () else .error (.unknownOption "--events or --force")
  else .error (.unknownOption "--json or --color")

/-- The command named by the first plain argument, with the arguments after it. -/
def commandOf (ps : Parts) (name : String) (args : List String) : Except UsageError Command := do
  if name = "evaluate" then
    ps.allow [.json, .color] [.events]
    let color ← ps.choice .color "--color" ColorMode.ofName? .auto
    return .evaluate args (ps.get? .json) (ps.flags.contains .events) color
  else if name = "init" then
    ps.allow [] [.force]
    match args with
    | [] => return .init none (ps.flags.contains .force)
    | [path] => return .init (some path) (ps.flags.contains .force)
    | _ :: extra :: _ => .error (.unexpectedArgument extra)
  else if name = "validate" || name = "types" then
    ps.allow [] []
    match args with
    | [] => return if name = "types" then .types else .validate
    | extra :: _ => .error (.unexpectedArgument extra)
  else .error (.unknownCommand name)

/-- Reads a command line, the name of the program not among it. -/
def parse (args : List String) : Except UsageError Invocation := do
  let ps ← sort args
  match ps.plain with
  | [] => .error .missingCommand
  | name :: rest =>
    let logLevel ← ps.choice .logLevel "--log-level" LogLevel.ofName? .none
    return { config := ps.get? .config, logLevel, command := ← commandOf ps name rest }

end Invocation
end ItemMetrics
