import ItemMetrics.Json.Basic
import ItemMetrics.Decimal.Reading
import ItemMetrics.Text.Digit

/-! Reading JSON text.

Arrays and objects nest at most `maxDepth` deep. An integer that no 64-bit word holds, a number with
a point or an exponent, and minus zero are read as doubles: the digits before any rounding form a
64-bit significand, later digits are dropped, and the significand is scaled by a power of ten. A
number too large for a double is refused. -/

namespace ItemMetrics.Json

/-- Why a text is not a JSON value. -/
inductive ReadError where
  | unexpectedEnd
  | unexpected (c : Char)
  | badNumber
  | numberOutOfRange
  | badEscape
  | loneSurrogate
  | controlCharacter
  | tooDeep
  | trailing
  deriving DecidableEq, Repr

def ReadError.message : ReadError → String
  | .unexpectedEnd => "unexpected end of text"
  | .unexpected c => "unexpected character '" ++ c.toString ++ "'"
  | .badNumber => "invalid number"
  | .numberOutOfRange => "number out of range"
  | .badEscape => "invalid escape"
  | .loneSurrogate => "lone surrogate in escape"
  | .controlCharacter => "control character in string"
  | .tooDeep => "nested too deeply"
  | .trailing => "text after the value"

/-- A step of reading: what was read and the text after it. -/
abbrev Reader (α : Type) := List Char → Except ReadError (α × List Char)

namespace Reader

def maxDepth : Nat := 127

def isSpace (c : Char) : Bool :=
  c == ' ' || c == '\n' || c == '\t' || c == '\r'

def skipSpaces (cs : List Char) : List Char :=
  cs.dropWhile isSpace

/-- The error of finding `cs` where something else must stand. -/
def unexpected {α : Type} (cs : List Char) : Except ReadError α :=
  match cs with
  | [] => .error .unexpectedEnd
  | c :: _ => .error (.unexpected c)

/-- Reads the characters of a fixed word. -/
def word (w : List Char) (value : Json) : Reader Json := fun cs =>
  if w.isPrefixOf cs then .ok (value, cs.drop w.length) else unexpected cs

/-- Divides by a power of ten in steps that are powers of ten themselves. -/
def scaleDown (x : Float) (power : Nat) : Float :=
  if power ≤ 308 then x / Decimal.nearest 1 power
  else if x == 0 then x
  else scaleDown (x / Decimal.nearest 1 308) (power - 308)
  termination_by power

/-- The significand times a power of ten, formed by scaling the significand as a double. -/
def scaled (significand : Nat) (power : Int) : Except ReadError Float :=
  let x := Float.ofNat significand
  if power < 0 then .ok (scaleDown x power.natAbs)
  else if significand = 0 then .ok x
  else if 308 < power then .error .numberOutOfRange
  else
    let y := x * Decimal.nearest 1 power
    if y.isFinite then .ok y else .error .numberOutOfRange

/-- Adds digits to a significand as long as it stays a 64-bit word. Returns it with the number of
digits taken and the digits left over. -/
def significand (start : Nat) : List Char → Nat × Nat × List Char
  | [] => (start, 0, [])
  | d :: ds =>
    let next := start * 10 + Decimal.digitValue d
    if 0x10000000000000000 ≤ next then (start, 0, d :: ds)
    else
      let (n, taken, rest) := significand next ds
      (n, taken + 1, rest)

def float (negative : Bool) (x : Float) : Except ReadError Number :=
  match Number.ofFloat? (if negative then -x else x) with
  | some n => .ok n
  | none => .error .numberOutOfRange

/-- Reads an exponent if one is there, and otherwise an exponent of zero. -/
def exponent : Reader (Option Int) := fun cs =>
  match cs with
  | [] => .ok (none, [])
  | c :: rest =>
    if c == 'e' || c == 'E' then
      let (negative, rest) :=
        match rest with
        | '-' :: rest => (true, rest)
        | '+' :: rest => (false, rest)
        | rest => (false, rest)
      let (ds, after) := Decimal.spanDigits rest
      if ds.isEmpty then .error .badNumber
      else
        let n : Int := Decimal.natOfDecimal ds
        .ok (some (if negative then -n else n), after)
    else .ok (none, cs)

/-- Reads the places after the point, if there are any. -/
def places : Reader (Option (List Char)) := fun cs =>
  match cs with
  | '.' :: rest =>
    let (ds, after) := Decimal.spanDigits rest
    if ds.isEmpty then .error .badNumber else .ok (some ds, after)
  | _ => .ok (none, cs)

/-- The number that the digits before the point, the places and the exponent make up. -/
def assemble (negative : Bool) (whole : List Char) (places : Option (List Char))
    (power : Option Int) : Except ReadError Number := do
  let (n, _, dropped) := significand 0 whole
  match places, power with
  | none, none =>
    let value : Int := if negative then -(Int.ofNat n) else Int.ofNat n
    match dropped, Number.ofInt? value with
    | [], some m =>
      if negative && n == 0 then float true 0 else return m
    | _, _ => float negative (← scaled n dropped.length)
  | places, power =>
    let (m, taken, _) := significand n (places.getD [])
    float negative (← scaled m (dropped.length - taken + power.getD 0))

def number : Reader Number := fun cs => do
  let (negative, cs) :=
    match cs with
    | '-' :: rest => (true, rest)
    | rest => (false, rest)
  let (whole, cs) := Decimal.spanDigits cs
  match whole with
  | [] => .error .badNumber
  | '0' :: _ :: _ => .error .badNumber
  | whole =>
    let (ps, cs) ← places cs
    let (power, cs) ← exponent cs
    return (← assemble negative whole ps power, cs)

/-- Reads a UTF-16 unit in four hexadecimal digits. -/
def unit : Reader Nat := fun cs =>
  match cs with
  | a :: b :: c :: d :: rest =>
    match Text.number? 16 [a, b, c, d] with
    | some n => .ok (n, rest)
    | none => .error .badEscape
  | _ => .error .unexpectedEnd

/-- Reads what follows a backslash and a `u`: one unit, or the two units of a surrogate pair. -/
def unicodeEscape : Reader Char := fun cs => do
  let (high, cs) ← unit cs
  if 0xDC00 ≤ high && high ≤ 0xDFFF then .error .loneSurrogate
  else if 0xD800 ≤ high && high ≤ 0xDBFF then
    match cs with
    | '\\' :: 'u' :: cs =>
      let (low, cs) ← unit cs
      if 0xDC00 ≤ low && low ≤ 0xDFFF then
        return (Char.ofNat (0x10000 + (high - 0xD800) * 0x400 + (low - 0xDC00)), cs)
      else .error .loneSurrogate
    | _ => .error .loneSurrogate
  else return (Char.ofNat high, cs)

/-- Reads what follows a backslash. -/
def escape : Reader Char := fun cs =>
  match cs with
  | [] => .error .unexpectedEnd
  | 'u' :: rest => unicodeEscape rest
  | c :: rest =>
    if c == '"' || c == '\\' || c == '/' then .ok (c, rest)
    else if c == 'b' then .ok ('\x08', rest)
    else if c == 'f' then .ok ('\x0c', rest)
    else if c == 'n' then .ok ('\n', rest)
    else if c == 'r' then .ok ('\r', rest)
    else if c == 't' then .ok ('\t', rest)
    else .error .badEscape

/-- Reads the inside of a string up to the closing quote, in at most `fuel` steps. -/
def stringBody : (fuel : Nat) → List Char → Reader String
  | 0, _ => fun _ => .error .unexpectedEnd
  | fuel + 1, done => fun cs =>
    match cs with
    | [] => .error .unexpectedEnd
    | '"' :: rest => .ok (String.ofList done.reverse, rest)
    | '\\' :: rest => do
      let (c, rest) ← escape rest
      stringBody fuel (c :: done) rest
    | c :: rest =>
      if c.toNat < 0x20 then .error .controlCharacter else stringBody fuel (c :: done) rest

/-- Reads a string whose opening quote has been read. Each step takes a character at least. -/
def string : Reader String := fun cs =>
  stringBody (cs.length + 1) [] cs

/-- Reads items separated by commas up to a closing bracket, in at most `fuel` steps. -/
def itemsUntil {α : Type} (close : Char) (item : Reader α) : (fuel : Nat) → List α → Reader (List α)
  | 0, _ => fun _ => .error .unexpectedEnd
  | fuel + 1, done => fun cs => do
    let (x, cs) ← item (skipSpaces cs)
    match skipSpaces cs with
    | [] => .error .unexpectedEnd
    | c :: rest =>
      if c == close then return ((x :: done).reverse, rest)
      else if c == ',' then itemsUntil close item fuel (x :: done) rest
      else .error (.unexpected c)

/-- Reads the rest of a bracketed list of items. Each step takes a character at least. -/
def items {α : Type} (close : Char) (item : Reader α) : Reader (List α) := fun cs =>
  match skipSpaces cs with
  | [] => .error .unexpectedEnd
  | c :: rest =>
    if c == close then .ok ([], rest) else itemsUntil close item (cs.length + 1) [] (c :: rest)

/-- Reads a key, a colon and a value. -/
def member (value : Reader Json) : Reader (String × Json) := fun cs =>
  match cs with
  | '"' :: rest => do
    let (key, cs) ← string rest
    match skipSpaces cs with
    | ':' :: rest =>
      let (x, cs) ← value (skipSpaces rest)
      return ((key, x), cs)
    | cs => unexpected cs
  | cs => unexpected cs

/-- Reads a value whose items and members are read by `inner`; without it no bracket may open. -/
def node (inner : Option (Reader Json)) : Reader Json := fun cs =>
  match cs with
  | [] => .error .unexpectedEnd
  | '"' :: rest => (string rest).map fun (s, cs) => (.string s, cs)
  | '[' :: rest =>
    match inner with
    | none => .error .tooDeep
    | some inner => (items ']' inner rest).map fun (xs, cs) => (.array xs, cs)
  | '{' :: rest =>
    match inner with
    | none => .error .tooDeep
    | some inner => (items '}' (member inner) rest).map fun (ms, cs) => (ofMembers ms, cs)
  | c :: rest =>
    if c == 't' then word ['t', 'r', 'u', 'e'] (.bool true) (c :: rest)
    else if c == 'f' then word ['f', 'a', 'l', 's', 'e'] (.bool false) (c :: rest)
    else if c == 'n' then word ['n', 'u', 'l', 'l'] .null (c :: rest)
    else if c == '-' || c.isDigit then (number (c :: rest)).map fun (n, cs) => (.number n, cs)
    else .error (.unexpected c)

/-- Reads a value in which arrays and objects nest at most `depth` deep. -/
def value : (depth : Nat) → Reader Json
  | 0 => node none
  | depth + 1 => node (some (value depth))

end Reader

/-- The value that a text holds, with nothing but blanks around it. -/
def read (s : String) : Except ReadError Json := do
  let (value, rest) ← Reader.value Reader.maxDepth (Reader.skipSpaces s.toList)
  match Reader.skipSpaces rest with
  | [] => return value
  | _ => .error .trailing

end ItemMetrics.Json
