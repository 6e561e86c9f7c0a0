/-
  Replay.Number.Shortest — the shortest decimal that reads back as a given float.

  A finite float other than zero is `m * 2 ^ q`. The reals that round to it form an
  interval around it, whose ends belong to it when `m` is even. For one digit, two digits
  and so on up to seventeen, the two neighbours of the value on the grid of decimals with
  that many digits are tried, in exact arithmetic: the first grid with a hit wins, of two
  hits the nearer one, and of two equally near the even one.
-/

import Replay.Text.Class

namespace Replay.Number

/-- `digits * 10 ^ exponent`, not negative. -/
structure Decimal where
  digits : Nat
  exponent : Int
  deriving DecidableEq, Repr

/-- A value between two ends over one denominator. -/
structure Interval where
  low : Nat
  value : Nat
  high : Nat
  denominator : Nat
  closed : Bool
  deriving Repr

namespace Interval

/-- The reals that round to `m * 2 ^ q`; below a power of two the floats stand closer together. -/
def ofBinary (m : Nat) (q : Int) (narrow : Bool) : Interval :=
  let scale := Nat.pow 2 (q - 2).toNat
  let low := 4 * m - if narrow then 1 else 2
  ⟨low * scale, 4 * m * scale, (4 * m + 2) * scale, Nat.pow 2 (2 - q).toNat, m % 2 == 0⟩

/-- Measured in units of `10 ^ p`. -/
def inUnits (i : Interval) (p : Int) : Interval :=
  let up := Nat.pow 10 (-p).toNat
  ⟨i.low * up, i.value * up, i.high * up, i.denominator * Nat.pow 10 p.toNat, i.closed⟩

def holds (i : Interval) (n : Nat) : Bool :=
  let x := n * i.denominator
  if i.closed then i.low ≤ x && x ≤ i.high else i.low < x && x < i.high

/-- The whole number in the interval that is nearest to its value. -/
def nearest? (i : Interval) : Option Nat :=
  let below := i.value / i.denominator
  let above := i.value - below * i.denominator
  let short := (below + 1) * i.denominator - i.value
  match i.holds below && below != 0, i.holds (below + 1) with
  | true, true =>
    if above < short then some below
    else if short < above then some (below + 1)
    else if below % 2 = 0 then some below else some (below + 1)
  | true, false => some below
  | false, true => some (below + 1)
  | false, false => none

end Interval

/-- How often a fraction below one can be raised tenfold and stay below one. -/
def leadingZeros : Nat → Nat → Nat → Nat
  | 0, _, _ => 0
  | fuel + 1, n, d => if n * 10 < d then leadingZeros fuel (n * 10) d + 1 else 0

/-- The least power of ten above the fraction. -/
def magnitude (n d : Nat) : Int :=
  if d ≤ n then (Text.decimal (n / d)).length else -(leadingZeros 400 n d : Int)

/-- The first grid with a hit, from `digits` on. -/
def search (i : Interval) (top : Int) : Nat → Nat → Decimal
  | 0, digits =>
    let j := i.inUnits (top - digits)
    ⟨j.value / j.denominator, top - digits⟩
  | fuel + 1, digits =>
    match (i.inUnits (top - digits)).nearest? with
    | some n => ⟨n, top - digits⟩
    | none => search i top fuel (digits + 1)

inductive Parts where
  | nan
  | infinite
  | zero
  | finite (m : Nat) (q : Int) (narrow : Bool)
  deriving Repr

/-- Fifty-two bits of a float are its fraction. -/
def fractionSize : Nat := 0x10000000000000

def parts (bits : UInt64) : Parts :=
  let fraction : Nat := bits.toNat % fractionSize
  let biased : Nat := bits.toNat / fractionSize % 2048
  if biased = 2047 then (if fraction = 0 then .infinite else .nan)
  else if biased = 0 then (if fraction = 0 then .zero else .finite fraction (-1074) false)
  else .finite (fractionSize + fraction) ((biased : Int) - 1075) (fraction = 0 && biased != 1)

def isNegative (bits : UInt64) : Bool := 0x8000000000000000 ≤ bits.toNat

def shortest (m : Nat) (q : Int) (narrow : Bool) : Decimal :=
  let i := Interval.ofBinary m q narrow
  search i (magnitude i.value i.denominator) 17 1

end Replay.Number
