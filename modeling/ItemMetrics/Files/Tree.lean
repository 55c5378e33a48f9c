import ItemMetrics.Files.Path

/-! A snapshot of the files that a run can see. Each file and directory is filed under the parts of
its path as seen from the working directory, which is itself the empty list of parts; `..` leads out
of it and a leading root leads to absolute paths. -/

namespace ItemMetrics

/-- What a file holds: a text, or bytes that are no UTF-8 text. -/
inductive Content where
  | text (s : String)
  | binary
  deriving DecidableEq, Repr

def Content.ofBytes (bytes : ByteArray) : Content :=
  match String.fromUTF8? bytes with
  | some s => .text s
  | none => .binary

inductive FileNode where
  | file (content : Content)
  | directory
  deriving DecidableEq, Repr

/-- Why a file could not be read or written. -/
inductive FileError where
  | notFound
  | notDirectory
  | isDirectory
  | notText
  deriving DecidableEq, Repr

def FileError.message : FileError → String
  | .notFound => "no such file or directory"
  | .notDirectory => "not a directory"
  | .isDirectory => "is a directory"
  | .notText => "the file is not valid UTF-8"

/-- The place of a file: the parts that lead to it, with `..` only in front. -/
abbrev FileKey := List Path.Part

structure FileTree where
  entries : List (FileKey × FileNode)
  nodup : (entries.map Prod.fst).Nodup
  /-- The directories whose entries may not be listed. What is in them can still be named. -/
  closed : List FileKey := []

namespace FileTree

def empty : FileTree := { entries := [], nodup := List.nodup_nil }

/-- Whether a place lies above or beside everything that the tree files: the working directory, the
directories above it and the root are always there. -/
def isAlwaysThere (key : FileKey) : Bool :=
  key.all (· == .up) || key == [.root]

def node? (tree : FileTree) (key : FileKey) : Option FileNode :=
  if isAlwaysThere key then some .directory else tree.entries.lookup key

def up (key : FileKey) : FileKey :=
  match key.getLast? with
  | some .root => key
  | some (.name ..) | some (.raw ..) => key.dropLast
  | _ => key ++ [.up]

/-- The place that one part leads to. -/
def follow (key : FileKey) (part : Path.Part) : FileKey :=
  match part with
  | .root => [.root]
  | .here => key
  | .up => up key
  | _ => key ++ [part]

/-- Goes from one place along one part. Only a directory can be left. -/
def step (tree : FileTree) (key : FileKey) (part : Path.Part) : Except FileError FileKey :=
  match tree.node? key with
  | none => .error .notFound
  | some (.file _) => .error .notDirectory
  | some .directory => .ok (follow key part)

/-- The place that a path leads to. Nothing need be there, but all parts before have to be. -/
def locate (tree : FileTree) (path : String) : Except FileError FileKey :=
  if path = "" then .error .notFound else (Path.parts path).foldlM tree.step []

/-- What stands at a path. -/
def stat (tree : FileTree) (path : String) : Except FileError FileNode := do
  match tree.node? (← tree.locate path) with
  | none => .error .notFound
  | some (.file content) =>
    if Path.endsAsDirectory path then .error .notDirectory else return .file content
  | some .directory => return .directory

def exists? (tree : FileTree) (path : String) : Bool :=
  (tree.stat path).toOption.isSome

def isDirectory (tree : FileTree) (path : String) : Bool :=
  (tree.stat path).toOption == some .directory

def readText (tree : FileTree) (path : String) : Except FileError String := do
  match ← tree.stat path with
  | .directory => .error .isDirectory
  | .file .binary => .error .notText
  | .file (.text s) => return s

/-- Empties a place. -/
def erase (tree : FileTree) (key : FileKey) : FileTree :=
  { tree with
    entries := tree.entries.filter (·.1 ≠ key)
    nodup := tree.nodup.sublist (List.filter_sublist.map _) }

theorem not_mem_keys_erase (tree : FileTree) (key : FileKey) :
    key ∉ (tree.erase key).entries.map Prod.fst := by
  simp [erase]

/-- Files a node at a place, instead of what was there. -/
def put (tree : FileTree) (key : FileKey) (node : FileNode) : FileTree :=
  { tree with
    entries := (tree.erase key).entries ++ [(key, node)]
    nodup := by
      rw [List.map_append, List.map_singleton, List.nodup_append]
      refine ⟨(tree.erase key).nodup, by simp, ?_⟩
      rintro k hk l hl rfl
      cases List.mem_singleton.mp hl
      exact not_mem_keys_erase tree key hk }

/-- Writes a file. Its directory has to be there. -/
def write (tree : FileTree) (path : String) (content : Content) : Except FileError FileTree := do
  let key ← tree.locate path
  match tree.node? key.dropLast, tree.node? key with
  | _, some .directory => .error .isDirectory
  | some .directory, _ =>
    if Path.endsAsDirectory path then .error .isDirectory else return tree.put key (.file content)
  | some (.file _), _ => .error .notDirectory
  | none, _ => .error .notFound

/-- Removes a file, if there is one. -/
def remove (tree : FileTree) (path : String) : Option FileTree :=
  match tree.stat path, tree.locate path with
  | .ok (.file _), .ok key => some (tree.erase key)
  | _, _ => none

/-- The place of a path when directories that are missing on the way are made. -/
def keyOf (path : String) : FileKey :=
  (Path.parts path).foldl follow []

/-- Makes the directory at a place and those above it. -/
def makeDirectories (tree : FileTree) (key : FileKey) : FileTree :=
  ((List.range (key.length + 1)).map key.take).foldl
    (fun t k => if (t.node? k).isNone then t.put k .directory else t) tree

def addDirectory (tree : FileTree) (path : String) : FileTree :=
  tree.makeDirectories (keyOf path)

/-- Makes a directory whose entries may not be listed. -/
def addClosed (tree : FileTree) (path : String) : FileTree :=
  let tree := tree.addDirectory path
  { tree with closed := keyOf path :: tree.closed }

/-- Files a content at a place and makes the directories that lead to it. -/
def addFileAt (tree : FileTree) (key : FileKey) (content : Content) : FileTree :=
  (tree.makeDirectories key.dropLast).put key (.file content)

/-- Files a content under a path and makes the directories that lead to it. -/
def addFile (tree : FileTree) (path : String) (content : Content) : FileTree :=
  tree.addFileAt (keyOf path) content

/-- The names that lead from one place down to another below it. -/
def wayDown? : FileKey → FileKey → Option (List Path.Part)
  | [], key => if key.all Path.Part.isEntry then some key else none
  | part :: above, other :: key => if part = other then wayDown? above key else none
  | _ :: _, [] => none

/-- The names that lead from a place down to the directories that may not be listed. -/
def closedBelow (tree : FileTree) (key : FileKey) : List (List Path.Part) :=
  tree.closed.filterMap (wayDown? key)

/-- The names that lead from a place down to the files below it. -/
def filesBelow (tree : FileTree) (key : FileKey) : List (List Path.Part) :=
  tree.entries.filterMap fun (other, node) =>
    match node, wayDown? key other with
    | .file _, some (part :: way) => some (part :: way)
    | _, _ => none

end FileTree
end ItemMetrics
