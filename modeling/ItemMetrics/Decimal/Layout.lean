import ItemMetrics.Decimal.Shortest

/-! The written form of a double: which magnitudes are written with a plain point, and how an
exponent is written otherwise. A whole number keeps one zero after the point. -/

namespace ItemMetrics.Decimal

/-- The choices of one written form. `lowest` and `highest` bound the power of ten of the leading
digit for which no exponent is written. -/
structure Layout where
  lowest : Int
  highest : Int
  plus : Bool
  tie : Tie

namespace Layout

/-- The form used inside JSON text. -/
def json : Layout :=
  ⟨-5, 15, true, .even⟩

/-- The form in which a value is shown to a reader. -/
def display : Layout :=
  ⟨-4, 15, false, .away⟩

def zeros (n : Nat) : List Char :=
  List.replicate n '0'

/-- The digits `ds` times `10 ^ exponent` with a plain point. -/
def positional (ds : List Char) (exponent : Int) : List Char :=
  let point := ds.length + exponent
  if 0 ≤ exponent then ds ++ zeros exponent.toNat ++ ['.', '0']
  else if 0 < point then ds.take point.toNat ++ ['.'] ++ ds.drop point.toNat
  else ['0', '.'] ++ zeros (-point).toNat ++ ds

def scientific (plus : Bool) (ds : List Char) (power : Int) : List Char :=
  let lead :=
    match ds with
    | [] => []
    | [d] => [d]
    | d :: ds => d :: '.' :: ds
  let sign := if power < 0 then ['-'] else if plus then ['+'] else []
  lead ++ ['e'] ++ sign ++ Nat.toDigits 10 power.natAbs

def isNegative (x : Float) : Bool :=
  x.toBits.toNat >>> 63 == 1

/-- The written form of a finite double. -/
def write (layout : Layout) (x : Float) : String :=
  let d := shortest layout.tie x
  let ds := Nat.toDigits 10 d.significand
  let power := d.exponent + ds.length - 1
  let body :=
    if d.significand = 0 then ['0', '.', '0']
    else if layout.lowest ≤ power && power ≤ layout.highest then positional ds d.exponent
    else scientific layout.plus ds power
  String.ofList (if isNegative x then '-' :: body else body)

end Layout
end ItemMetrics.Decimal
