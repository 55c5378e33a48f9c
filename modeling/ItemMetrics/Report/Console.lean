import ItemMetrics.Evaluator.Result
import ItemMetrics.Json.Printer
import ItemMetrics.Registry.Basic
import ItemMetrics.Report.Style

/-! The report for a reader: how many items there are of each type, then the values of each item. -/

namespace ItemMetrics.Report

/-- An evaluated item with the identity under which it is reported. -/
structure Item where
  id : String
  type : String
  evaluation : Evaluation

/-- The identity of an item as a text. -/
def idText (item : Json) : String :=
  match item.get? "id" with
  | none => "<no id>"
  | some .null => "<no id>"
  | some (.string id) => id
  | some other => other.compact

def Item.of (item : Json) (evaluation : Evaluation) : Item :=
  ⟨idText item, evaluation.type, evaluation⟩

/-- Counts one more occurrence in a list of counts with increasing keys. -/
def count (key : String) : List (String × Nat) → List (String × Nat)
  | [] => [(key, 1)]
  | (k, n) :: cs =>
    if key < k then (key, 1) :: (k, n) :: cs
    else if key = k then (k, n + 1) :: cs
    else (k, n) :: count key cs

/-- How many items there are of each type, in increasing order of the types. -/
def tally (items : List Item) : List (String × Nat) :=
  items.foldl (fun cs item => count item.evaluation.type cs) []

def line (s : String) : String := s ++ "\n"

def banner (colors : Bool) : String :=
  line (Style.paint colors [.bold] "Summary Report") ++ line (String.ofList (List.replicate 60 '='))
    ++ line ""

def typeLine (colors : Bool) (type schema : String) (n : Nat) : String :=
  let type := Style.paint colors [.cyan, .bold] type
  line s!"Type: {type} (schema: {schema}) -> {n} item(s)"

/-- The lines of the types up to the first that is not registered, and the error at that one. -/
def typeLines (colors : Bool) (registry : Registry) :
    List (String × Nat) → String × Except RegistryError Unit
  | [] => ("", .ok ())
  | (type, n) :: rest =>
    match registry.get type with
    | .error e => ("", .error e)
    | .ok manifest =>
      let (text, outcome) := typeLines colors registry rest
      (typeLine colors type manifest.schema.text n ++ text, outcome)

def valueLine (colors : Bool) (entry : String × Scalar) : String :=
  let key := Style.paint colors [.green] entry.1
  line s!"  - {key}: {entry.2.display}"

def itemBlock (colors : Bool) (item : Item) : String :=
  let id := Style.paint colors [.bold] item.id
  let type := Style.paint colors [.cyan] item.type
  line s!"Item {id} [{type}]"
    ++ String.join (item.evaluation.values.entries.map (valueLine colors)) ++ line ""

/-- The report, or what comes before the first type that is not registered, and its error. -/
def console (colors : Bool) (registry : Registry) (items : List Item) :
    String × Except RegistryError Unit :=
  match tally items with
  | [] => (banner colors ++ line "No items were processed.", .ok ())
  | totals =>
    match typeLines colors registry totals with
    | (text, .ok ()) =>
      (banner colors ++ text ++ line "" ++ String.join (items.map (itemBlock colors)), .ok ())
    | (text, .error e) => (banner colors ++ text, .error e)

end ItemMetrics.Report
