/-! TOML values, and why a text is not TOML. -/

namespace ItemMetrics.Toml

inductive Value where
  | string (s : String)
  | integer (n : Int)
  | float (x : Float)
  | boolean (b : Bool)
  /-- A date, a time or both, as it is written. -/
  | moment (text : String)
  | array (items : List Value)
  | table (members : List (String × Value))
  deriving Inhabited

inductive Fault where
  | unexpectedEnd
  | unexpected (c : Char)
  | missingKey
  | missingValue
  | badString
  | badEscape
  | badValue
  | duplicateKey (key : String)
  | notTable (key : String)
  | tooDeep
  deriving DecidableEq, Repr

def Fault.message : Fault → String
  | .unexpectedEnd => "unexpected end of text"
  | .unexpected c => "unexpected character '" ++ c.toString ++ "'"
  | .missingKey => "missing key"
  | .missingValue => "missing value"
  | .badString => "invalid string"
  | .badEscape => "invalid escape"
  | .badValue => "invalid value"
  | .duplicateKey key => s!"duplicate key '{key}'"
  | .notTable key => s!"key '{key}' is no table that can be extended"
  | .tooDeep => "nested too deeply"

/-- A step of reading: what was read and the text after it. -/
abbrev Reader (α : Type) := List Char → Except Fault (α × List Char)

def unexpected {α : Type} : List Char → Except Fault α
  | [] => .error .unexpectedEnd
  | c :: _ => .error (.unexpected c)

/-- The members of a table. -/
def Value.get? : Value → String → Option Value
  | .table ms, key => ms.lookup key
  | _, _ => none

end ItemMetrics.Toml
