import ItemMetrics.Entries
import ItemMetrics.Toml.Value

/-! Building tables. A header or an assignment names its place by a path of keys; a table may be
extended by what comes later only as long as nothing has closed it. -/

namespace ItemMetrics.Toml

/-- How a table came to be there: as part of a longer header, by a header of its own, or by an
assignment to a path. -/
inductive Origin where
  | implied
  | header
  | dotted
  deriving DecidableEq

/-- A value under construction. Values that are written out in brackets are closed. -/
inductive Draft where
  | closed (value : Value)
  | table (origin : Origin) (members : List (String × Draft))
  | tables (elements : List (List (String × Draft)))

namespace Draft

abbrev Members := List (String × Draft)

/-- Assigns a value to a path. Only tables made by such paths are extended. -/
def assign (ms : Members) (v : Value) : List String → Except Fault Members
  | [] => .error .missingKey
  | [key] =>
    match ms.lookup key with
    | none => .ok (Entries.set ms key (.closed v))
    | some _ => .error (.duplicateKey key)
  | key :: path =>
    match ms.lookup key with
    | none => (assign [] v path).map fun inner => Entries.set ms key (.table .dotted inner)
    | some (.table .dotted inner) =>
      (assign inner v path).map fun inner => Entries.set ms key (.table .dotted inner)
    | some _ => .error (.notTable key)

/-- Applies `f` to the table at a path, making the tables on the way that are not there. Of an array
of tables the last one is meant. -/
def within (ms : Members) (f : Members → Except Fault Members) :
    List String → Except Fault Members
  | [] => f ms
  | key :: path =>
    match ms.lookup key with
    | none => (within [] f path).map fun inner => Entries.set ms key (.table .implied inner)
    | some (.table origin inner) =>
      (within inner f path).map fun inner => Entries.set ms key (.table origin inner)
    | some (.tables elements) =>
      (within (elements.getLast?.getD []) f path).map fun inner =>
        Entries.set ms key (.tables (elements.dropLast ++ [inner]))
    | some (.closed _) => .error (.notTable key)

/-- Opens a table that a header names. -/
def openTable (key : String) (ms : Members) : Except Fault Members :=
  match ms.lookup key with
  | none => .ok (Entries.set ms key (.table .header []))
  | some (.table .implied inner) => .ok (Entries.set ms key (.table .header inner))
  | some _ => .error (.duplicateKey key)

/-- Opens one more element of an array of tables. -/
def openElement (key : String) (ms : Members) : Except Fault Members :=
  match ms.lookup key with
  | none => .ok (Entries.set ms key (.tables [[]]))
  | some (.tables elements) => .ok (Entries.set ms key (.tables (elements ++ [[]])))
  | some _ => .error (.duplicateKey key)

mutual
def value : Draft → Value
  | .closed v => v
  | .table _ ms => .table (values ms)
  | .tables elements => .array (elementValues elements)

def values : List (String × Draft) → List (String × Value)
  | [] => []
  | (k, d) :: ms => (k, d.value) :: values ms

def elementValues : List (List (String × Draft)) → List Value
  | [] => []
  | ms :: elements => .table (values ms) :: elementValues elements
end

end Draft
end ItemMetrics.Toml
