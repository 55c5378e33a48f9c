import ItemMetrics.Json.Basic

/-! Where the value of a metric was taken from. -/

namespace ItemMetrics

inductive Source where
  /-- A dotted path into the item. -/
  | path (path : String)
  /-- A metric computed before. -/
  | metric (key : String)
  deriving DecidableEq, Repr

namespace Source

def tag : Source → String
  | .path p => "path:" ++ p
  | .metric k => "metric:" ++ k

def tagsToJson (sources : List Source) : Json :=
  Json.strings (sources.map tag)

end Source
end ItemMetrics
