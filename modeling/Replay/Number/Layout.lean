/-
  Replay.Number.Layout — how a float is written down.

  Both layouts take the shortest digits that read back and write at least one digit on
  either side of the point. `plain` never uses an exponent. `short` uses one from ten to
  the sixteenth on and below ten to the minus fifth, with a sign in front of it either
  way.
-/

import Replay.Number.Shortest

namespace Replay.Number

open Text

structure Layout where
  /-- The scientific exponents that are written positionally; `none` for all of them. -/
  positional : Option (Int × Int)

def Layout.short : Layout := ⟨some (-5, 15)⟩
def Layout.plain : Layout := ⟨none⟩

/-- Digits without trailing zeros. -/
def significant (d : Decimal) : Text :=
  dropEndWhile (· = '0') (decimal d.digits)

/-- `point` digits stand before the point. -/
def positionalText (digits : Text) (point : Int) : Text :=
  if point ≤ 0 then '0' :: '.' :: List.replicate (-point).toNat '0' ++ digits
  else
    let n := point.toNat
    if digits.length ≤ n then digits ++ List.replicate (n - digits.length) '0' ++ ['.', '0']
    else digits.take n ++ '.' :: digits.drop n

def scientificText (digits : Text) (exponent : Int) : Text :=
  let head := match digits with
    | [] => []
    | [d] => [d]
    | d :: ds => d :: '.' :: ds
  head ++ 'e' :: (if exponent < 0 then '-' else '+') :: decimal exponent.natAbs

def Layout.magnitudeText (l : Layout) (d : Decimal) : Text :=
  let digits := significant d
  let point := ((decimal d.digits).length : Int) + d.exponent
  match l.positional with
  | none => positionalText digits point
  | some (least, most) =>
    if least ≤ point - 1 ∧ point - 1 ≤ most then positionalText digits point
    else scientificText digits (point - 1)

def Layout.text (l : Layout) (x : Float) : Text :=
  let bits := x.toBits
  let sign : Text := if isNegative bits then ['-'] else []
  match parts bits with
  | .nan => ['N', 'a', 'N']
  | .infinite => sign ++ ['i', 'n', 'f']
  | .zero => sign ++ ['0', '.', '0']
  | .finite m q narrow => sign ++ l.magnitudeText (shortest m q narrow)

end Replay.Number
