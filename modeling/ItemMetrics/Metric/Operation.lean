import ItemMetrics.Decimal.Rounding
import ItemMetrics.FieldPath
import ItemMetrics.Metric.Definition
import ItemMetrics.Metric.Source
import ItemMetrics.Metric.Values
import ItemMetrics.Text.Word

/-! The operations that a metric can name, and what each computes from an item and the metrics
computed before it. -/

namespace ItemMetrics

/-- Why an item could not be evaluated. -/
inductive EvaluationError where
  | missingItemType
  | unknownType (type : String)
  | noDefinition (type : String)
  | unmetDependency (metric dependency : String)
  | unsupportedOperation (metric operation : String)
  | missingConfig (metric key : String)
  | invalidConfig (metric key reason : String)
  | nonNumericMetric (metric source : String)
  deriving DecidableEq, Repr

def EvaluationError.message : EvaluationError → String
  | .missingItemType => "Item is missing a valid 'item_type' field"
  | .unknownType type => s!"Type '{type}' is not registered"
  | .noDefinition type => s!"No derived definition registered for '{type}'"
  | .unmetDependency metric dependency =>
    s!"Metric '{metric}' depends on '{dependency}' but it has not been computed"
  | .unsupportedOperation metric operation =>
    s!"Unsupported operation '{operation}' in metric '{metric}'"
  | .missingConfig metric key => s!"Metric '{metric}' must provide '{key}' in configuration"
  | .invalidConfig metric key reason =>
    s!"Metric '{metric}' has an invalid '{key}' in configuration: {reason}"
  | .nonNumericMetric metric source => s!"Metric '{metric}' needs a numeric value for '{source}'"

/-- A computed value with the places it was taken from. -/
abbrev Computed := Scalar × List Source

inductive Operation where
  /-- The number of entries of the array or object at `path`. -/
  | length
  /-- The number of objects in the array at `path` whose `field` agrees with `equals`. -/
  | countWhere
  /-- The metric `numerator` divided by the metric `denominator`. -/
  | ratio
  /-- The metric named by `metric` divided by the constant `per`. -/
  | rate
  /-- The number of words in the text at `path`. -/
  | wordCount
  /-- Whether there is anything at `path`. -/
  | presence
  deriving DecidableEq, Repr

namespace Operation

def all : List Operation :=
  [.length, .countWhere, .ratio, .rate, .wordCount, .presence]

def name : Operation → String
  | .length => "length"
  | .countWhere => "count_where"
  | .ratio => "ratio"
  | .rate => "rate"
  | .wordCount => "word_count"
  | .presence => "exists"

/-- Finds an operation by its name. The case of ASCII letters does not matter. -/
def ofName? (s : String) : Option Operation :=
  all.find? fun op => op.name.toList == s.toList.map Char.toLower

end Operation

namespace Metric

/-- The text that the configuration has to hold under `key`. -/
def requireText (m : Metric) (key : String) : Except EvaluationError String :=
  match m.config.get? key with
  | none => .error (.missingConfig m.key.text key)
  | some .null => .error (.missingConfig m.key.text key)
  | some (.string s) =>
    if s = "" then .error (.invalidConfig m.key.text key "must be a non-empty string") else .ok s
  | some _ => .error (.invalidConfig m.key.text key "must be a non-empty string")

def smallInteger? : Json → Option Int
  | .number n => n.toInt64?.bind fun i =>
    if -0x80000000 ≤ i.toInt ∧ i.toInt < 0x80000000 then some i.toInt else none
  | _ => none

/-- The number of places to round to, if the configuration asks for rounding. -/
def precision (m : Metric) : Except EvaluationError (Option Int) :=
  match m.config.get? "precision" with
  | none => .ok none
  | some .null => .ok none
  | some value =>
    match smallInteger? value with
    | some n => .ok (some n)
    | none => .error (.invalidConfig m.key.text "precision" "must be an integer")

/-- A value computed before as a number. -/
def numeric (m : Metric) (source : String) (value : Scalar) : Except EvaluationError Float :=
  match value.toFloat? with
  | some x => .ok x
  | none => .error (.nonNumericMetric m.key.text source)

/-- The value computed before under a key; a metric that was not computed counts as zero. -/
def reference (computed : Values) (key : String) : Scalar :=
  (computed.get? key).getD (.integer 0)

def entryCount : Json → Nat
  | .array xs => xs.length
  | .object ms => ms.length
  | _ => 0

/-- Whether an entry is an object whose value at the path `field` agrees with `needle`. -/
def holdsAt (field : String) (needle entry : Json) : Bool :=
  entry.isObject && (FieldPath.walk entry field).any (Json.agrees · needle)

def matchCount (field : String) (needle : Json) : Json → Nat
  | .array xs => xs.countP (holdsAt field needle)
  | _ => 0

/-- The text of a plain string, or the `insert` fragments of a rich text in order. -/
def plainText : Json → String
  | .string s => s
  | .object ms =>
    match (Json.Members.get? ms "ops").bind Json.array? with
    | some ops => String.join (ops.filterMap fun op => (op.get? "insert").bind Json.string?)
    | none => ""
  | _ => ""

/-- Computes a value from what the item holds at `path`. -/
def fromPath (m : Metric) (item : Json) (value : Option Json → Scalar) :
    Except EvaluationError Computed := do
  let path ← m.requireText "path"
  return (value (FieldPath.resolve item path), [.path path])

def length (m : Metric) (item : Json) : Except EvaluationError Computed :=
  m.fromPath item fun found => .ofCount ((found.map entryCount).getD 0)

def countWhere (m : Metric) (item : Json) : Except EvaluationError Computed := do
  let path ← m.requireText "path"
  let field ← m.requireText "field"
  let needle := (m.config.get? "equals").getD (.bool true)
  let count := ((FieldPath.resolve item path).map (matchCount field needle)).getD 0
  return (.ofCount count, [.path path])

def wordCount (m : Metric) (item : Json) : Except EvaluationError Computed :=
  m.fromPath item fun found => .ofCount ((found.map (Text.countWords ∘ plainText)).getD 0)

def presence (m : Metric) (item : Json) : Except EvaluationError Computed :=
  m.fromPath item fun found => .boolean (found.any Json.isTruthy)

/-- What a ratio is when its denominator is not true. -/
def fallback (m : Metric) : Except EvaluationError Scalar :=
  match m.config.get? "default" with
  | none => .ok (.float 0)
  | some value =>
    match Scalar.ofJson? value with
    | some s => .ok s
    | none => .error (.invalidConfig m.key.text "default" "must be a number, boolean or string")

def ratio (m : Metric) (computed : Values) : Except EvaluationError Computed := do
  let numerator ← m.requireText "numerator"
  let denominator ← m.requireText "denominator"
  let precision ← m.precision
  let sources := [.metric numerator, .metric denominator]
  if (reference computed denominator).isTruthy then
    let x ← m.numeric numerator (reference computed numerator)
    let y ← m.numeric denominator (reference computed denominator)
    return (.float (Decimal.roundTo (x / y) precision), sources)
  else return (← m.fallback, sources)

/-- The constant by which a rate divides. -/
def divisor (m : Metric) : Except EvaluationError Float :=
  match m.config.get? "per" with
  | none => .error (.missingConfig m.key.text "per")
  | some .null => .error (.missingConfig m.key.text "per")
  | some (.number n) =>
    if n.toFloat != 0 then .ok n.toFloat
    else .error (.invalidConfig m.key.text "per" "must be a non-zero number")
  | some _ => .error (.invalidConfig m.key.text "per" "must be a non-zero number")

def rate (m : Metric) (computed : Values) : Except EvaluationError Computed := do
  let key ← m.requireText "metric"
  let per ← m.divisor
  let precision ← m.precision
  let x ← m.numeric key (reference computed key)
  return (.float (Decimal.roundTo (x / per) precision), [.metric key])

end Metric

namespace Operation

/-- Runs the operation for a metric. -/
def apply (op : Operation) (m : Metric) (item : Json) (computed : Values) :
    Except EvaluationError Computed :=
  match op with
  | .length => m.length item
  | .countWhere => m.countWhere item
  | .ratio => m.ratio computed
  | .rate => m.rate computed
  | .wordCount => m.wordCount item
  | .presence => m.presence item

end Operation

/-- Computes a metric. Its dependencies have to be among the values computed before. -/
def Metric.compute (m : Metric) (item : Json) (computed : Values) :
    Except EvaluationError Computed :=
  match m.dependsOn.find? fun d => !computed.contains d.text with
  | some d => .error (.unmetDependency m.key.text d.text)
  | none =>
    match Operation.ofName? m.operation.text with
    | some op => op.apply m item computed
    | none => .error (.unsupportedOperation m.key.text m.operation.text)

end ItemMetrics
