import ItemMetrics.Command.Run

/-! The program: takes a snapshot of the files that a command looks at, runs the command on it, and
carries out what it leaves behind. -/

namespace ItemMetrics.Main

/-- The part for a name that a listing shows with replacement characters. Which bytes these stand for
is not told; it is taken to be one that no text has. -/
def rawPart? (shown : String) : Option Path.Part :=
  let bytes := shown.toList.flatMap fun c =>
    if c = '\uFFFD' then [0xFF] else Text.bytes (String.singleton c)
  if h : Path.isRaw bytes = true then some (.raw bytes h) else none

/-- Adds what stands at a path to a tree. Of a directory, `deep` adds what is below it as well. An
entry that is listed but cannot be found has a name that is no text; it is taken to be a file. -/
partial def addPath (deep : Bool) (tree : FileTree) (path : String) : IO FileTree := do
  let place := (← IO.currentDir) / path
  if path.isEmpty then return tree
  else if ← place.isDir then
    if deep then
      match ← place.readDir.toBaseIO with
      | .ok entries =>
        let add (tree : FileTree) (entry : IO.FS.DirEntry) : IO FileTree := do
          match rawPart? entry.fileName, ← entry.path.pathExists with
          | some part, false => return tree.addFileAt (FileTree.keyOf path ++ [part]) .binary
          | _, _ => addPath true tree (Path.join path entry.fileName)
        entries.foldlM add (tree.addDirectory path)
      | .error _ => return tree.addClosed path
    else return tree.addDirectory path
  else if ← place.pathExists then
    return tree.addFile path (.ofBytes (← IO.FS.readBinFile place))
  else return tree

/-- The files that a command looks at, and those in place of the one it may write. -/
def snapshot (workingDir : String) (i : Invocation) : IO FileTree := do
  let settings := i.config.getD (Path.join workingDir Settings.fileName)
  let tree ← addPath false .empty settings
  let tree ← (Command.inputs tree workingDir i).foldlM (addPath true) tree
  let outputs := (Command.output? i).toList
  (outputs.filterMap Path.parent? ++ outputs).foldlM (addPath false) tree

def complain (e : CommandError) : IO Unit := do
  IO.eprintln s!"Error: {e.message}"
  match e.cause? with
  | some cause => IO.eprintln s!"caused by: {cause}"
  | none => pure ()

def carryOut (outcome : Outcome) : IO UInt32 := do
  IO.print outcome.stdout
  IO.eprint outcome.stderr
  match outcome.written with
  | some (path, text) => IO.FS.writeFile path text
  | none => pure ()
  match outcome.exit, outcome.result with
  | some code, _ => return code.toUInt32
  | none, .ok () => return 0
  | none, .error e =>
    complain e
    return 1

end ItemMetrics.Main

def main (args : List String) : IO UInt32 := do
  match ItemMetrics.Invocation.parse args with
  | .error e =>
    IO.eprintln s!"error: {e.message}"
    return 2
  | .ok invocation =>
    let tree ← ItemMetrics.Main.snapshot "." invocation
    let terminal ← (← IO.getStdout).isTty
    ItemMetrics.Main.carryOut (ItemMetrics.Command.run tree "." terminal invocation)
