/-! Reading a decimal number as the nearest double. -/

namespace ItemMetrics.Decimal

def digitValue (c : Char) : Nat :=
  c.toNat - '0'.toNat

/-- The number that decimal digits spell. -/
def natOfDecimal (ds : List Char) : Nat :=
  ds.foldl (fun n d => n * 10 + digitValue d) 0

/-- Splits off the leading digits. -/
def spanDigits (cs : List Char) : List Char × List Char :=
  cs.span Char.isDigit

/-- The double nearest to `mantissa * 10 ^ exponent`. Magnitudes that no double reaches are settled
before the power of ten is formed. -/
def nearest (mantissa : Nat) (exponent : Int) : Float :=
  let top := (Nat.toDigits 10 mantissa).length + exponent
  if mantissa = 0 || top < -330 then 0
  else if 310 < top then 1.0 / 0.0
  else if exponent < 0 then Float.ofScientific mantissa true exponent.natAbs
  else Float.ofScientific mantissa false exponent.natAbs

/-- Reads an optional exponent mark with its signed digits; the mark may not stand alone. -/
def exponent? : List Char → Option Int
  | [] => some 0
  | c :: cs =>
    if c == 'e' || c == 'E' then
      let (negative, ds) :=
        match cs with
        | '-' :: ds => (true, ds)
        | '+' :: ds => (false, ds)
        | ds => (false, ds)
      if ds.isEmpty || !ds.all Char.isDigit then none
      else if negative then some (-(natOfDecimal ds)) else some (natOfDecimal ds)
    else none

/-- Reads an unsigned number: digits with at most one point anywhere among them, then an optional
exponent. At least one digit is needed. -/
def magnitude? (cs : List Char) : Option Float :=
  let (whole, rest) := spanDigits cs
  let (places, rest) :=
    match rest with
    | '.' :: rest => spanDigits rest
    | rest => ([], rest)
  if whole.isEmpty && places.isEmpty then none
  else (exponent? rest).map fun e => nearest (natOfDecimal (whole ++ places)) (e - places.length)

/-- Reads a number with an optional sign. A magnitude above the doubles reads as infinity. -/
def float? : List Char → Option Float
  | '-' :: cs => (magnitude? cs).map Neg.neg
  | '+' :: cs => magnitude? cs
  | cs => magnitude? cs

end ItemMetrics.Decimal
