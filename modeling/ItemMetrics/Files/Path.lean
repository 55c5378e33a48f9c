import ItemMetrics.Text.Bytes
import ItemMetrics.Text.Split

/-! Path texts. A path is compared through its parts, so that repeated slashes, a slash at the end
and inner single dots do not matter; the text itself is never normalised. A file may have a name that
is no text, and then no path text leads to it. -/

namespace ItemMetrics.Path

/-- Whether a text can name a file: it is not empty, means no directory by itself and holds no
slash. -/
def isName (s : String) : Bool :=
  s != "" && s != "." && s != ".." && !s.toList.contains '/'

/-- Whether some bytes can name a file but are no text. -/
def isRaw (bytes : List UInt8) : Bool :=
  !Text.isText bytes && !bytes.contains '/'.toUInt8

/-- One part of the way to a file: a part of a path, or a name that is no text. -/
inductive Part where
  | root
  | here
  | up
  | name (s : String) (h : isName s = true)
  | raw (bytes : List UInt8) (h : isRaw bytes = true)
  deriving DecidableEq, Repr

namespace Part

/-- Whether a part leads to something that stands in a directory. -/
def isEntry : Part → Bool
  | .name .. | .raw .. => true
  | _ => false

def isSpelled : Part → Bool
  | .raw .. => false
  | _ => true

/-- The name of what a part leads to, as the file system has it. -/
def bytes : Part → List UInt8
  | .name s _ => Text.bytes s
  | .raw bytes _ => bytes
  | _ => []

/-- What is shown for a name. -/
def display : Part → String
  | .name s _ => s
  | .raw bytes _ => Text.lossy bytes
  | _ => ""

def rank : Part → Nat
  | .root => 0
  | .here => 1
  | .up => 2
  | .name .. | .raw .. => 3

/-- The order of parts: names stand last, by their bytes. -/
def before (a b : Part) : Bool :=
  a.rank < b.rank || (a.rank = b.rank && a.bytes < b.bytes)

/-- The part that a piece between slashes stands for; an empty piece and a single dot are none. -/
def ofPiece? (piece : String) : Option Part :=
  if piece = ".." then some .up
  else if h : isName piece = true then some (.name piece h)
  else none

end Part

def isAbsolute (path : String) : Bool :=
  path.toList.head? == some '/'

/-- The parts of a path. A single dot is a part only where a relative path starts with it. -/
def parts (path : String) : List Part :=
  match Text.split '/' path with
  | [] => []
  | first :: rest =>
    let lead :=
      if isAbsolute path then [.root]
      else if first = "." then [.here]
      else (Part.ofPiece? first).toList
    lead ++ rest.filterMap Part.ofPiece?

/-- Lexicographic order of lists of parts. -/
def partsBefore : List Part → List Part → Bool
  | _, [] => false
  | [], _ :: _ => true
  | a :: as, b :: bs => a.before b || (a == b && partsBefore as bs)

/-- The first of some lists of parts. -/
def first? : List (List Part) → Option (List Part)
  | [] => none
  | way :: ways =>
    match first? ways with
    | some other => if partsBefore other way then some other else some way
    | none => some way

/-- The order of paths: by parts. -/
def before (a b : String) : Bool :=
  partsBefore (parts a) (parts b)

/-- The path `inner` seen from `base`. An absolute path stays what it is. -/
def join (base inner : String) : String :=
  if isAbsolute inner then inner
  else if base = "" || base.toList.getLast? == some '/' then base ++ inner
  else base ++ "/" ++ inner

/-- The path that leads from `base` down along some names, as it is shown. -/
def descend (base : String) (way : List Part) : String :=
  (way.map Part.display).foldl join base

/-- The last part, if it is a name. -/
def fileName? (path : String) : Option String :=
  match (parts path).getLast? with
  | some (.name s _) => some s
  | _ => none

/-- Whether a piece between slashes adds nothing to the path before it. -/
def isIdle (piece : String) : Bool :=
  piece = "" || piece = "."

/-- The path without its last part; nothing for the empty path and for the root. -/
def parent? (path : String) : Option String :=
  if (parts path).getLast? ∈ [none, some .root] then none
  else
    match Text.split '/' path with
    | [] => none
    | first :: rest =>
      match (rest.reverse.dropWhile isIdle).tail.dropWhile isIdle with
      | [] =>
        if isAbsolute path then some "/"
        else if rest.any (!isIdle ·) then some first
        else some ""
      | kept => some ("/".intercalate (first :: kept.reverse))

/-- The text after the last point of a name. A point that starts the name starts no extension. -/
def extension? (path : String) : Option String :=
  (fileName? path).bind fun name =>
    match (Text.split '.' name).reverse with
    | _ :: [] => none
    | _ :: [""] => none
    | last :: _ => some last
    | [] => none

/-- Whether the text of a path asks for a directory: it ends in a slash or in a single dot. -/
def endsAsDirectory (path : String) : Bool :=
  match (Text.split '/' path).getLast? with
  | some last => path != "" && isIdle last
  | none => false

end ItemMetrics.Path
