import MiniScheme.Decimal.Shortest
/-! # Double-precision numbers

A double is its 64-bit pattern, so that two doubles are equal when their patterns are. Reading a
decimal and writing the shortest one are exact computations on naturals; arithmetic is that of the
machine, with one rule for invalid operations: a NaN operand is passed on, and an operation that
makes a NaN from numbers makes the one with the sign bit set.
-/
namespace MiniScheme

/-- A binary64 number by its bit pattern. -/
structure Double where
  bits : UInt64
deriving DecidableEq, Repr, Inhabited

namespace Double

/-- Least exponent of a unit in the last place. -/
def minExponent : Int := -1074

/-- The pattern of positive infinity. -/
def infinityBits : Nat := 0x7FF0000000000000

def signBit : Nat := 0x8000000000000000

/-- Weight of the last bit of the exponent: the least significand of full length. -/
def hiddenBit : Nat := 0x10000000000000

def ofMagnitude (negative : Bool) (bits : Nat) : Double :=
  ⟨(if negative then signBit + bits else bits).toUInt64⟩

/-- Quotient rounded to the nearest natural, a half to the even one. -/
def divNearest (num den : Nat) : Nat :=
  let q := num / den
  let r := num % den
  if 2 * r > den || (2 * r == den && q % 2 == 1) then q + 1 else q

/-- `num / (den * 2 ^ e)` rounded to the nearest natural. -/
def scaledNearest (num den : Nat) (e : Int) : Nat :=
  divNearest (num * Nat.pow 2 (-e).toNat) (den * Nat.pow 2 e.toNat)

/-- Exponent of the last place of a 53-bit significand of `num / den`: the quotient of the two
scaled by it lies below `2 ^ 53` and, unless the exponent is the least one, not below `2 ^ 52`. -/
def unitExponent (num den : Nat) : Int :=
  let e : Int := (num.log2 : Int) - (den.log2 : Int) - 52
  let e :=
    if num * Nat.pow 2 (-e).toNat < hiddenBit * (den * Nat.pow 2 e.toNat) then e - 1 else e
  max e minExponent

/-- The double nearest to `num / den`, ties to even, beyond the largest one infinity. -/
def ofRatio (negative : Bool) (num den : Nat) : Double :=
  if num = 0 then ofMagnitude negative 0
  else
    let e := unitExponent num den
    let bits := (e - minExponent).toNat * hiddenBit + scaledNearest num den e
    ofMagnitude negative (min bits infinityBits)

/-- The double nearest to the decimal `digits / 10 ^ places`. -/
def ofDecimal (negative : Bool) (digits places : Nat) : Double :=
  ofRatio negative digits (Nat.pow 10 places)

def isNegative (d : Double) : Bool := d.bits.toNat / signBit == 1

def magnitude (d : Double) : Nat := d.bits.toNat % signBit

def isNaN (d : Double) : Bool := d.magnitude > infinityBits

def isInfinite (d : Double) : Bool := d.magnitude == infinityBits

def isZero (d : Double) : Bool := d.magnitude == 0

/-- Significand and exponent of a finite double: its size is `m * 2 ^ e`. -/
def decode (d : Double) : Nat × Int :=
  let biased : Nat := d.magnitude / hiddenBit
  let fraction : Nat := d.magnitude % hiddenBit
  if biased = 0 then (fraction, minExponent) else (fraction + hiddenBit, minExponent + (biased : Int) - 1)

/-- The rationals that round to the size of a finite, non-zero double. The ends lie half way to the
neighbours, and belong to the interval when the significand is even. -/
def interval (d : Double) : Decimal.Interval :=
  let (m, e) := d.decode
  let scale := Nat.pow 2 (e - 2).toNat
  let toLower := if m = hiddenBit && e > minExponent then 1 else 2
  { low := (4 * m - toLower) * scale
    value := 4 * m * scale
    high := (4 * m + 2) * scale
    den := Nat.pow 2 (2 - e).toNat
    closed := m % 2 == 0 }

/-- Shortest positional decimal that reads back as the same double. -/
def text (d : Double) : String :=
  if d.isNaN then "+nan.0"
  else if d.isInfinite then (if d.isNegative then "-inf.0" else "+inf.0")
  else
    (if d.isNegative then "-" else "") ++
      (if d.isZero then "0.0" else (Decimal.shortest d.interval).text)

def invalid : Double := ofMagnitude true 0x7FF8000000000000

def lift₂ (op : Float → Float → Float) (a b : Double) : Double :=
  if a.isNaN then a
  else if b.isNaN then b
  else
    let r : Double := ⟨(op (Float.ofBits a.bits) (Float.ofBits b.bits)).toBits⟩
    if r.isNaN then invalid else r

def add : Double → Double → Double := lift₂ (· + ·)

def sub : Double → Double → Double := lift₂ (· - ·)

def mul : Double → Double → Double := lift₂ (· * ·)

def div : Double → Double → Double := lift₂ (· / ·)

def abs (d : Double) : Double := ofMagnitude false d.magnitude

def ofInt (n : Int) : Double := ofRatio (n < 0) n.natAbs 1

/-- Size with sign, zero having none: the order of the doubles that are not NaN. -/
def key (d : Double) : Int := if d.isNegative then -(d.magnitude : Int) else d.magnitude

/-- Numeric order; `none` when a NaN is involved. -/
def compare? (a b : Double) : Option Ordering :=
  if a.isNaN || b.isNaN then none else some (compare a.key b.key)

end Double
end MiniScheme
