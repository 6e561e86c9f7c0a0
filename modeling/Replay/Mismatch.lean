/-
  Replay.Mismatch — data of the wrong shape.

  A deployment record and a configuration are decoded in the order in which they are
  written, and the first thing that does not fit is reported: what was found, and what was
  expected there.
-/

import Replay.Text.Quoted
import Replay.Event

namespace Replay

open Text

inductive Found where
  | integer (i : Int)
  /-- A float, as the format shows it. -/
  | float (shown : Text)
  | boolean (b : Bool)
  | string (s : Text)
  | null
  | sequence
  | map
  deriving DecidableEq, Repr

inductive Mismatch where
  | missingField (name : Text)
  | duplicateField (name : Text)
  | unknownVariant (name : Text) (first second : Text)
  | wrongType (found : Found) (expected : Text)
  | wrongValue (found : Found) (expected : Text)
  /-- A sequence of `given` elements where a structure of `total` fields is expected. -/
  | wrongLength (given : Nat) (name : Text) (total : Nat)
  | notVariant
  | variantCount (several : Bool)
  | variantNotEmpty (kind : Text)
  | variantContent (kind : Text)
  deriving DecidableEq, Repr

def integerText (i : Int) : Text :=
  if i < 0 then '-' :: decimal i.natAbs else decimal i.natAbs

def ticked (s : Text) : Text := '\x60' :: s ++ ['\x60']

def Found.text : Found → Text
  | integer i => cat ["integer ", ticked (integerText i)]
  | float shown => cat ["floating point ", ticked shown]
  | boolean b => cat ["boolean ", ticked (if b then "true" else "false")]
  | string s => cat ["string ", quoted s]
  | null => "null"
  | sequence => "sequence"
  | map => "map"

def Mismatch.message : Mismatch → Text
  | missingField f => cat ["missing field ", ticked f]
  | duplicateField f => cat ["duplicate field ", ticked f]
  | unknownVariant v a b =>
    cat ["unknown variant ", ticked v, ", expected ", ticked a, " or ", ticked b]
  | wrongType found expected => cat ["invalid type: ", found.text, ", expected ", expected]
  | wrongValue found expected => cat ["invalid value: ", found.text, ", expected ", expected]
  | wrongLength n name total =>
    cat ["invalid length ", decimal n, ", expected struct ", name, " with ", decimal total,
      if total = 1 then " element" else " elements"]
  | notVariant => "wanted string or table"
  | variantCount several =>
    cat ["wanted exactly 1 element, ",
      if several then "more than 1 element" else "found 0 elements"]
  | variantNotEmpty kind => cat ["expected empty ", kind]
  | variantContent kind => cat ["expected table, found ", kind]

end Replay
