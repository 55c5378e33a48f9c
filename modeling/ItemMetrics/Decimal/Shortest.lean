/-! The shortest decimal that reads back as a given double.

A finite double is `mantissa * 2 ^ exponent`. The reals that round to it form an interval whose ends
belong to it when the mantissa is even. For one digit, two digits and so on, the two neighbours of
the value among the decimals of that many digits are tested against the interval; the first length
with a hit is taken, and of two hits the nearer. -/

namespace ItemMetrics.Decimal

/-- The number `significand * 10 ^ exponent`. -/
structure Digits where
  significand : Nat
  exponent : Int
  deriving DecidableEq, Repr

/-- Which of two equally near decimals is taken. -/
inductive Tie where
  | even
  | away
  deriving DecidableEq, Repr

/-- A positive double as `mantissa * 2 ^ exponent`. `narrow` holds of a power of two above the
subnormal range, whose lower neighbour is only half as far away as the upper one. -/
structure Binary where
  mantissa : Nat
  exponent : Int
  narrow : Bool

/-- The magnitude of a finite double. -/
def Binary.ofFloat (x : Float) : Binary :=
  let bits := x.toBits.toNat
  let fraction := bits % 0x10000000000000
  let scale := (bits >>> 52) % 0x800
  if scale = 0 then ⟨fraction, -1074, false⟩
  else ⟨fraction + 0x10000000000000, Int.ofNat scale - 1075, fraction == 0 && scale != 1⟩

/-- How many digits the decimal notation of `n` has. -/
def length (n : Nat) : Nat :=
  (Nat.toDigits 10 n).length

/-- The value, its rounding interval and one decimal grid over a common denominator: `unit` is the
distance between two grid points. -/
structure Scaled where
  low : Nat
  value : Nat
  high : Nat
  closed : Bool
  unit : Nat

/-- The scaled form of `b` on the grid of multiples of `10 ^ place`. -/
def Binary.onGrid (b : Binary) (place : Int) : Scaled :=
  let up := Nat.pow 2 (b.exponent - 2).toNat * Nat.pow 10 (-place).toNat
  { low := (4 * b.mantissa - if b.narrow then 1 else 2) * up
    value := 4 * b.mantissa * up
    high := (4 * b.mantissa + 2) * up
    closed := b.mantissa % 2 == 0
    unit := Nat.pow 10 place.toNat * Nat.pow 2 (2 - b.exponent).toNat }

def Scaled.admits (s : Scaled) (n : Nat) : Bool :=
  let point := n * s.unit
  if s.closed then s.low ≤ point && point ≤ s.high else s.low < point && point < s.high

/-- The grid point nearest to the value among its two neighbours that round to it. -/
def Scaled.nearest? (s : Scaled) (tie : Tie) : Option Nat :=
  let below := s.value / s.unit
  match s.admits below, s.admits (below + 1) with
  | false, false => none
  | true, false => some below
  | false, true => some (below + 1)
  | true, true =>
    let down := s.value - below * s.unit
    let up := (below + 1) * s.unit - s.value
    if down < up then some below
    else if up < down then some (below + 1)
    else
      match tie with
      | .even => some (if below % 2 == 0 then below else below + 1)
      | .away => some (below + 1)

/-- How many digits stand before the point in the decimal notation of `b`; zero or negative for a
value below one tenth. Four hundred places reach below the least double. -/
def Binary.magnitude (b : Binary) : Int :=
  let s := b.onGrid (-400)
  length (s.value / s.unit) - 400

/-- Tries grids of `n`, `n + 1`, … digits, at most `fuel` of them. -/
def Binary.search (b : Binary) (tie : Tie) (top : Int) : (fuel n : Nat) → Digits
  | 0, n => ⟨(b.onGrid (top - n)).value / (b.onGrid (top - n)).unit, top - n⟩
  | fuel + 1, n =>
    match (b.onGrid (top - n)).nearest? tie with
    | some significand => ⟨significand, top - n⟩
    | none => b.search tie top fuel (n + 1)

/-- Moves trailing zeros of the significand into the exponent, at most `fuel` of them. -/
def Digits.strip (d : Digits) : (fuel : Nat) → Digits
  | 0 => d
  | fuel + 1 =>
    if d.significand != 0 && d.significand % 10 == 0 then
      strip ⟨d.significand / 10, d.exponent + 1⟩ fuel
    else d

/-- The shortest decimal that rounds to the magnitude of `x`, which is finite. Seventeen digits are
always enough. -/
def shortest (tie : Tie) (x : Float) : Digits :=
  let b := Binary.ofFloat x
  if b.mantissa = 0 then ⟨0, 0⟩ else (b.search tie b.magnitude 17 1).strip 17

end ItemMetrics.Decimal
