import ItemMetrics.Decimal.Reading
import ItemMetrics.Toml.Text

/-! Values written without quotes or brackets: truth values, numbers, dates and times. -/

namespace ItemMetrics.Toml

/-- Digits with single underscores between them: the digits alone. -/
def groupedDigits? (isDigit : Char → Bool) : List Char → Option (List Char)
  | [] => none
  | [d] => if isDigit d then some [d] else none
  | d :: '_' :: ds => if isDigit d then (groupedDigits? isDigit ds).map (d :: ·) else none
  | d :: ds => if isDigit d then (groupedDigits? isDigit ds).map (d :: ·) else none

def splitSign : List Char → Option Bool × List Char
  | '-' :: cs => (some true, cs)
  | '+' :: cs => (some false, cs)
  | cs => (none, cs)

/-- Digits of a whole decimal number, which starts with a zero only if it is zero. -/
def wholeDigits? (cs : List Char) : Option (List Char) :=
  (groupedDigits? Char.isDigit cs).bind fun ds =>
    if 2 ≤ ds.length && ds.head? == some '0' then none else some ds

def natOfBase? (base : Nat) (cs : List Char) : Option Nat :=
  (groupedDigits? (fun c => (Text.digit? base c).isSome) cs).bind (Text.number? base)

def integer? (cs : List Char) : Option Int :=
  let value : Option Int :=
    match cs with
    | '0' :: 'x' :: ds => (natOfBase? 16 ds).map Int.ofNat
    | '0' :: 'o' :: ds => (natOfBase? 8 ds).map Int.ofNat
    | '0' :: 'b' :: ds => (natOfBase? 2 ds).map Int.ofNat
    | cs =>
      let (sign, ds) := splitSign cs
      (wholeDigits? ds).map fun ds =>
        let n := Int.ofNat (Decimal.natOfDecimal ds)
        if sign == some true then -n else n
  value.filter fun n => -0x8000000000000000 ≤ n && n < 0x8000000000000000

def special? : List Char → Option Float
  | ['i', 'n', 'f'] => some (1.0 / 0.0)
  | ['n', 'a', 'n'] => some (0.0 / 0.0)
  | _ => none

/-- Splits a text at the first character that satisfies `p`, which is dropped. -/
def splitFirst (p : Char → Bool) (cs : List Char) : List Char × Option (List Char) :=
  match cs.span (!p ·) with
  | (before, []) => (before, none)
  | (before, _ :: after) => (before, some after)

/-- An optional part that has to be well formed where it is given: the digits, none if not given. -/
def partDigits? (part : Option (List Char)) : Option (List Char) :=
  match part with
  | none => some []
  | some cs => groupedDigits? Char.isDigit cs

def float? (cs : List Char) : Option Float :=
  let (sign, cs) := splitSign cs
  let magnitude :=
    match special? cs with
    | some x => some x
    | none => do
      let (mantissa, power) := splitFirst (fun c => c == 'e' || c == 'E') cs
      let (whole, places) := splitFirst (· == '.') mantissa
      let whole ← wholeDigits? whole
      let places' ← partDigits? places
      let (powerSign, power') := splitSign (power.getD [])
      let power' ← partDigits? (power.map fun _ => power')
      if places.isNone && power.isNone then none
      else
        let n := Int.ofNat (Decimal.natOfDecimal power')
        let n := if powerSign == some true then -n else n
        some (Decimal.nearest (Decimal.natOfDecimal (whole ++ places')) (n - places'.length))
  magnitude.map fun x => if sign == some true then -x else x

/-- A number of exactly `n` digits between two bounds. -/
def field? (n low high : Nat) (cs : List Char) : Option Nat :=
  if cs.length = n && cs.all Char.isDigit then
    (some (Decimal.natOfDecimal cs)).filter fun v => low ≤ v && v ≤ high
  else none

def daysIn (year month : Nat) : Nat :=
  if month = 2 then
    if year % 4 = 0 && (year % 100 ≠ 0 || year % 400 = 0) then 29 else 28
  else if month = 4 || month = 6 || month = 9 || month = 11 then 30
  else 31

def isDate (cs : List Char) : Bool :=
  cs.length = 10 && (cs.drop 4).head? == some '-' && (cs.drop 7).head? == some '-' &&
    match field? 4 0 9999 (cs.take 4), field? 2 1 12 ((cs.drop 5).take 2) with
    | some year, some month => (field? 2 1 (daysIn year month) (cs.drop 8)).isSome
    | _, _ => false

/-- Hours and minutes, then seconds and parts of a second where they are given. -/
def isTime (cs : List Char) : Bool :=
  (field? 2 0 23 (cs.take 2)).isSome && (cs.drop 2).head? == some ':'
    && (field? 2 0 59 ((cs.drop 3).take 2)).isSome &&
    match cs.drop 5 with
    | [] => true
    | ':' :: cs =>
      (field? 2 0 60 (cs.take 2)).isSome &&
        match cs.drop 2 with
        | [] => true
        | '.' :: ds => !ds.isEmpty && ds.all Char.isDigit
        | _ => false
    | _ => false

/-- Removes a time zone, if one is given and well formed. -/
def dropZone (cs : List Char) : List Char :=
  let zone := cs.drop (cs.length - 6)
  if cs.getLast? == some 'Z' || cs.getLast? == some 'z' then cs.dropLast
  else if (zone.head? == some '+' || zone.head? == some '-')
      && (field? 2 0 23 ((zone.drop 1).take 2)).isSome && (zone.drop 3).head? == some ':'
      && (field? 2 0 59 (zone.drop 4)).isSome then cs.take (cs.length - 6)
  else cs

def isMoment (cs : List Char) : Bool :=
  let joint := (cs.drop 10).head?
  isDate cs || isTime cs
    || (isDate (cs.take 10) && (joint == some 'T' || joint == some 't' || joint == some ' ')
      && isTime (dropZone (cs.drop 11)))

/-- The value that a word spells. -/
def bareValue? (cs : List Char) : Option Value :=
  let word := String.ofList cs
  if word = "true" then some (.boolean true)
  else if word = "false" then some (.boolean false)
  else
    match integer? cs with
    | some n => some (.integer n)
    | none =>
      match float? cs with
      | some x => some (.float x)
      | none => if isMoment cs then some (.moment word) else none

def isBareChar (c : Char) : Bool :=
  c.isAlphanum || c == '_' || c == '-' || c == '+' || c == '.' || c == ':'

/-- Reads a word. A date and a time may be separated by a single space. -/
def bare : Reader Value := fun cs =>
  let (word, rest) := cs.span isBareChar
  let (word, rest) :=
    match rest with
    | ' ' :: d :: more =>
      if isDate word && d.isDigit then
        let (time, after) := (d :: more).span isBareChar
        (word ++ ' ' :: time, after)
      else (word, rest)
    | _ => (word, rest)
  if word.isEmpty then
    match rest with
    | [] => .error .missingValue
    | c :: _ => .error (.unexpected c)
  else
    match bareValue? word with
    | some v => .ok (v, rest)
    | none => .error .badValue

end ItemMetrics.Toml
