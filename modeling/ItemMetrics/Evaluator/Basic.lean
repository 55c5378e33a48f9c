import ItemMetrics.Evaluator.Definitions
import ItemMetrics.Evaluator.Result
import ItemMetrics.Metric.Operation

/-! Evaluating the metrics declared for the type of an item. The metrics are computed in the order of
declaration, each from the item and the values before it, and the first failure ends the item. -/

namespace ItemMetrics

structure Evaluator where
  root : String
  registry : Registry
  definitions : Definitions

namespace Evaluator

/-- Replaces the definitions by those now in the files. After a failure there are none. -/
def reload (ev : Evaluator) (tree : FileTree) : Except LoadError Unit × Evaluator :=
  match Definitions.load tree ev.root ev.registry with
  | .ok definitions => (.ok (), { ev with definitions })
  | .error e => (.error e, { ev with definitions := ∅ })

def new (tree : FileTree) (root : String) (registry : Registry) : Except LoadError Evaluator := do
  let definitions ← Definitions.load tree root registry
  return { root, registry, definitions }

def types (ev : Evaluator) : List String :=
  ev.definitions.types

def definitionFor (ev : Evaluator) (type : String) : Except EvaluationError TypeDefinition :=
  match ev.definitions.find? type with
  | some d => .ok d
  | none => .error (.noDefinition type)

def itemType (item : Json) : Except EvaluationError String :=
  match (item.get? "item_type").bind Json.string? with
  | some type => if type = "" then .error .missingItemType else .ok type
  | none => .error .missingItemType

/-- The type of an item with the definition for it. -/
def definitionOf (ev : Evaluator) (item : Json) :
    Except EvaluationError (String × TypeDefinition) := do
  let type ← itemType item
  if !ev.registry.contains type then .error (.unknownType type)
  else return (type, ← ev.definitionFor type)

/-- The identity of an item, or null. -/
def itemId (item : Json) : Json :=
  (item.get? "id").getD .null

/-- Values and sources computed so far. -/
structure Progress where
  values : Values
  provenance : List (String × List Source)

/-- Computes one metric after others, and says so in the log. -/
def computeNext (type : String) (item : Json) (span : Span) (p : Progress) (m : Metric) :
    Logged EvaluationError Progress := do
  let (value, sources) ← Logged.ofExcept (m.compute item p.values)
  Logged.emit "derived.metric"
    [("span_id", .string span.id), ("type_key", .string type), ("item_id", itemId item),
      ("metric", .string m.key.text), ("value", value.toJson),
      ("sources", Source.tagsToJson sources)]
  return ⟨p.values.insert m.key.text value, p.provenance ++ [(m.key.text, sources)]⟩

def evaluate (ev : Evaluator) (item : Json) : Logged EvaluationError Evaluation := do
  let (type, definition) ← Logged.ofExcept (ev.definitionOf item)
  let p ←
    Logged.inSpan "derived.evaluate_item"
      [("type_key", .string type), ("item_id", itemId item)]
      fun span => definition.metrics.foldlM (computeNext type item span) ⟨∅, []⟩
  Logged.emit "derived.evaluation_complete"
    [("type_key", .string type), ("item_id", itemId item),
      ("metrics", .strings (p.values.keys.mergeSort fun a b => decide (a ≤ b)))]
  return { type, values := p.values, provenance := p.provenance }

/-- Evaluates items one after another up to the first that fails. -/
def evaluateMany (ev : Evaluator) (items : List Json) :
    Logged EvaluationError (List (Json × Evaluation)) :=
  items.mapM fun item => do return (item, ← ev.evaluate item)

end Evaluator
end ItemMetrics
