/-! Rounding a double to decimal places, halves to the even neighbour. All steps are double
arithmetic, the power of ten included. -/

namespace ItemMetrics.Decimal

/-- Multiplies `r` by `a ^ n` by repeated squaring. -/
def powerFrom (a r : Float) (n : Nat) : Float :=
  let r := if n % 2 = 1 then r * a else r
  if n / 2 = 0 then r else powerFrom (a * a) r (n / 2)
  termination_by n
  decreasing_by omega

/-- The power of ten as it comes out of double arithmetic; a negative exponent inverts at the end. -/
def powerOfTen (n : Int) : Float :=
  let r := powerFrom 10 1 n.natAbs
  if n < 0 then 1 / r else r

/-- The integer nearest to `x`, of two the even one, with the sign of `x`. Adding `2 ^ 52` to a
smaller magnitude leaves no room for a fraction. -/
def nearestInteger (x : Float) : Float :=
  let limit : Float := 4503599627370496
  let magnitude := x.abs
  if magnitude < limit then
    let rounded := (magnitude + limit) - limit
    if x.toBits.toNat >>> 63 = 1 then -rounded else rounded
  else x

/-- Rounds to the given number of places. A value too large to be scaled stays as it is, and a power
of ten that vanishes leaves zero. -/
def roundTo (x : Float) : (places : Option Int) → Float
  | none => x
  | some places =>
    let factor := powerOfTen places
    if factor == 0 then 0
    else
      let scaled := x * factor
      if scaled.isFinite then nearestInteger scaled / factor else x

end ItemMetrics.Decimal
