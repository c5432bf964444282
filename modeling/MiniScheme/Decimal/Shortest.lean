/-! # Shortest decimal in an interval

A positive rational `num / den` lies strictly inside an interval whose ends have the same
denominator. Among all decimals `digits * 10 ^ exponent` in the interval, `shortest` picks one on
the coarsest grid `10 ^ exponent` that meets the interval next to the value; of two neighbours that
both lie in it the nearer one, and the upper one if they are equally near.
-/
namespace MiniScheme.Decimal

/-- A value with the interval of rationals that stand for it. All four are over one denominator. -/
structure Interval where
  low : Nat
  value : Nat
  high : Nat
  den : Nat
  /-- Whether the ends belong to the interval. -/
  closed : Bool

/-- A decimal `digits * 10 ^ exponent`. -/
structure Scientific where
  digits : Nat
  exponent : Int
deriving DecidableEq, Repr

/-- Factor that makes the grid `10 ^ exponent` integral. -/
def gridScale (exponent : Int) : Nat := Nat.pow 10 (-exponent).toNat

/-- Denominator of the grid `10 ^ exponent` once scaled. -/
def gridUnit (exponent : Int) (den : Nat) : Nat := den * Nat.pow 10 exponent.toNat

/-- Whether `a < b`, or `a ≤ b` if ends count. -/
def within (closed : Bool) (a b : Nat) : Bool := if closed then a ≤ b else a < b

/-- The neighbour of the value on the grid `10 ^ exponent` that lies in the interval. -/
def onGrid (i : Interval) (exponent : Int) : Option Nat :=
  let scale := gridScale exponent
  let unit := gridUnit exponent i.den
  let below := i.value * scale / unit
  let excess := i.value * scale % unit
  let down := within i.closed (i.low * scale) (below * unit)
  let up := within i.closed ((below + 1) * unit) (i.high * scale)
  if up && (!down || 2 * excess ≥ unit) then some (below + 1)
  else if down then some below
  else none

/-- Try `steps` grids from `10 ^ exponent` on, each ten times as fine as the one before. -/
def shortestFrom (i : Interval) : (steps : Nat) → (exponent : Int) → Scientific
  | 0, exponent => ⟨i.value * gridScale exponent / gridUnit exponent i.den, exponent⟩
  | steps + 1, exponent =>
    match onGrid i exponent with
    | some digits => ⟨digits, exponent⟩
    | none => shortestFrom i steps (exponent - 1)

/-- A power of ten above the value. -/
def topExponent (i : Interval) : Nat := (i.value / i.den).log2 / 3 + 1

/-- Number of grids finer than one that a double can need. -/
def finestGrid : Nat := 400

def shortest (i : Interval) : Scientific :=
  shortestFrom i (topExponent i + finestGrid) (topExponent i)

/-- Positional text of a decimal, always with a fractional part. -/
def Scientific.text (s : Scientific) : String :=
  let digits := toString s.digits
  let zeros (n : Nat) : String := "".pushn '0' n
  if 0 ≤ s.exponent then digits ++ zeros s.exponent.toNat ++ ".0"
  else
    let places := (-s.exponent).toNat
    let padded := zeros (places + 1 - digits.length) ++ digits
    let whole := padded.length - places
    String.ofList (padded.toList.take whole) ++ "." ++ String.ofList (padded.toList.drop whole)

end MiniScheme.Decimal
