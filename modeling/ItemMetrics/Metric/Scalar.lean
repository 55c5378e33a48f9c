import ItemMetrics.Json.Printer

/-! The value of a metric: an integer, a double, a truth value or a text. -/

namespace ItemMetrics

inductive Scalar where
  | integer (value : Int64)
  | float (value : Float)
  | boolean (value : Bool)
  | text (value : String)
  deriving DecidableEq

namespace Scalar

/-- A count; it stops at the largest 64-bit integer. -/
def ofCount (n : Nat) : Scalar :=
  .integer (Int64.ofInt (min n 0x7fffffffffffffff))

/-- The value of a JSON scalar. Null, arrays and objects have none, and an integer that no signed
word holds becomes a double. -/
def ofJson? : Json → Option Scalar
  | .bool b => some (.boolean b)
  | .number n =>
    match n.toInt64? with
    | some i => some (.integer i)
    | none => some (.float n.toFloat)
  | .string s => some (.text s)
  | _ => none

/-- The value as JSON; a double that is not finite has no number and becomes null. -/
def toJson : Scalar → Json
  | .integer i =>
    .number (.int i.toInt i.le_toInt (Int.lt_trans i.toInt_lt (by decide)))
  | .float x =>
    match Json.Number.ofFloat? x with
    | some n => .number n
    | none => .null
  | .boolean b => .bool b
  | .text s => .string s

/-- The value as JSON text. -/
def write : Scalar → String
  | .integer i => toString i.toInt
  | .float x => if x.isFinite then Decimal.Layout.json.write x else "null"
  | .boolean b => if b then "true" else "false"
  | .text s => Json.quote s

/-- Zero, `false` and the empty text do not count as true. -/
def isTruthy : Scalar → Bool
  | .integer i => i != 0
  | .float x => x != 0
  | .boolean b => b
  | .text s => !s.isEmpty

/-- The value as a number, with `true` as one and `false` as zero. A text is no number. -/
def toFloat? : Scalar → Option Float
  | .integer i => some (Float.ofInt i.toInt)
  | .float x => some x
  | .boolean b => some (if b then 1 else 0)
  | .text _ => none

def showFloat (x : Float) : String :=
  if x.isFinite then Decimal.Layout.display.write x
  else if x.isNaN then "NaN"
  else if x < 0 then "-inf"
  else "inf"

/-- The value as it is shown to a reader. -/
def display : Scalar → String
  | .integer i => toString i.toInt
  | .float x => showFloat x
  | .boolean b => if b then "true" else "false"
  | .text s => s

end Scalar
end ItemMetrics
