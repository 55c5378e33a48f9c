import ItemMetrics.Document.Loading

/-! Finding the documents of a directory. A search visits what stands in a directory in the order of
the names, each directory before what is in it; a way down stands for what it leads to from the
root. -/

namespace ItemMetrics.Document

variable (tree : FileTree) (key : FileKey) (root : String) (recursive : Bool)

/-- The ways down to the directories that a search would have to list but may not. -/
def closedWays : List (List Path.Part) :=
  (tree.closedBelow key).filter fun way => recursive || way.isEmpty

/-- The ways down to the files that a search comes to. -/
def fileWays : List (List Path.Part) :=
  (tree.filesBelow key).filter fun way => recursive || way.length = 1

/-- The ways down to the places where a search cannot go on. Also a file that is no document is one
of them if its path is no text. -/
def obstacles : List (List Path.Part) :=
  closedWays tree key recursive ++
    (fileWays tree key recursive).filter fun way => !way.all Path.Part.isSpelled

/-- The paths of the documents below a place, in the order of the tree. -/
def candidates : List String :=
  ((fileWays tree key recursive).map (Path.descend root)).filter
    fun path => (Format.ofPath? path).isSome

/-- The documents under `root`, in the order of their paths; without `recursive` only those directly
in it. A root that is not there has none. -/
def discover : Except DocumentError (List String) :=
  match tree.stat root, tree.locate root with
  | .ok _, .ok key =>
    match Path.first? (obstacles tree key recursive) with
    | some way =>
      .error (if way ∈ closedWays tree key recursive then .unlistable root
        else .illegible (Path.descend root way))
    | none =>
      .ok ((candidates tree key root recursive).mergeSort fun a b => !Path.before b a)
  | _, _ => .ok []

end ItemMetrics.Document
