import ItemMetrics.Entries
import ItemMetrics.Metric.Scalar

/-! Metric values in the order in which their keys were first set. Each key occurs once; setting it
again keeps its place. -/

namespace ItemMetrics

/-- A list of entries with distinct keys. -/
structure Values where
  entries : List (String × Scalar)
  nodup : (entries.map Prod.fst).Nodup

namespace Values

def empty : Values := ⟨[], List.nodup_nil⟩

instance : EmptyCollection Values := ⟨empty⟩

def keys (vs : Values) : List String :=
  vs.entries.map Prod.fst

def get? (vs : Values) (key : String) : Option Scalar :=
  vs.entries.lookup key

def contains (vs : Values) (key : String) : Bool :=
  vs.keys.contains key

def size (vs : Values) : Nat :=
  vs.entries.length

def isEmpty (vs : Values) : Bool :=
  vs.entries.isEmpty

/-- Replaces the value of `key` where it stands, or appends it. -/
def insert (vs : Values) (key : String) (value : Scalar) : Values :=
  ⟨Entries.set vs.entries key value, Entries.nodup_set vs.nodup⟩

def ofList (es : List (String × Scalar)) : Values :=
  es.foldl (fun vs e => vs.insert e.1 e.2) ∅

/-- The entries as a JSON object, in their own order. -/
def toJson (vs : Values) : Json :=
  .object (vs.entries.map fun e => (e.1, e.2.toJson))

end Values
end ItemMetrics
