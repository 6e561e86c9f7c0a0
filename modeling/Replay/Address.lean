/-
  Replay.Address — contract addresses and their checksummed spelling.

  An address is forty hexadecimal digits, with `0x` or `0X` before them or not. Its
  checksummed spelling has `0x`, and a letter among its digits is a capital when the digit
  at the same place of the hash of the lower-case digits is eight or more. So the spelling
  depends on the value of the digits alone. Any other text stands for itself.
-/

import Replay.Keccak
import Replay.Event

namespace Replay.Address

open Text

/-- The text without its `0x`. -/
def bare : Text → Text
  | '0' :: 'x' :: r => r
  | '0' :: 'X' :: r => r
  | s => s

def digitCount : Nat := 40

/-- The values of the digits of an address. -/
def digits? (s : Text) : Option (List Nat) :=
  if (bare s).length = digitCount then (bare s).mapM hexValue? else none

def isAddress (s : Text) : Bool := (digits? s).isSome

def lowerText (digits : List Nat) : Text := digits.map hexDigit

/-- The digits of a hash, high half first. -/
def halves (bytes : List UInt8) : List Nat := bytes.flatMap fun b => [b.toNat / 16, b.toNat % 16]

def hashDigits (digits : List Nat) : List Nat :=
  halves (Keccak.hash ((lowerText digits).map fun c => c.toNat.toUInt8))

def cased (hash : List Nat) (digits : List Nat) : Text :=
  digits.mapIdx fun i d => if 8 ≤ hash.getD i 0 then (hexDigit d).toUpper else hexDigit d

def spelling (digits : List Nat) : Text := '0' :: 'x' :: cased (hashDigits digits) digits

def checksum (s : Text) : Text :=
  match digits? s with
  | some ds => spelling ds
  | none => s

def report (s : Text) : List Event := if isAddress s then [] else [.badAddress s]

end Replay.Address
