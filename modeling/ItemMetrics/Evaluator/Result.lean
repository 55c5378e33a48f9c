import ItemMetrics.Metric.Source
import ItemMetrics.Metric.Values

/-! What was computed for one item: its type, the values of its metrics, and for each metric where
its value was taken from. -/

namespace ItemMetrics

structure Evaluation where
  type : String
  values : Values
  provenance : List (String × List Source)

namespace Evaluation

def value? (e : Evaluation) (key : String) : Option Scalar :=
  e.values.get? key

def sources? (e : Evaluation) (key : String) : Option (List Source) :=
  e.provenance.lookup key

/-- The tags of the sources of a metric; none for a metric that was not computed. -/
def tags (e : Evaluation) (key : String) : List String :=
  ((e.sources? key).getD []).map Source.tag

def provenanceMembers (e : Evaluation) : Json.Members :=
  e.provenance.map fun (key, sources) => (key, Source.tagsToJson sources)

/-- The result in the order of declaration. -/
def toJson (e : Evaluation) : Json :=
  .object
    [("type", .string e.type), ("values", e.values.toJson),
      ("provenance", .object e.provenanceMembers)]

/-- The result with all members in the order of their keys. -/
def tree (e : Evaluation) : Json :=
  .ofMembers
    [("type", .string e.type),
      ("values", .ofMembers (e.values.entries.map fun (key, value) => (key, value.toJson))),
      ("provenance", .ofMembers e.provenanceMembers)]

end Evaluation
end ItemMetrics
