/-
  Replay.Json.Lexical — strings, numbers and words of JSON.

  A reader takes a text and gives what it read and the text behind it, or the fault that
  it met first. A text that ends too early is a fault of its own. Numbers are read the
  fast way: their digits are gathered in a word of sixty-four bits, what no longer fits is
  dropped, and the word is scaled once by a power of ten, so the last bit is not always
  the nearest.

  What stands under a key that nobody asks for is only skipped. It has to be well-formed
  as well, but its escapes and numbers mean nothing, so they cannot be out of range.
-/

import Replay.Json.Value
import Replay.Mismatch

namespace Replay.Json

open Text

inductive Fault where
  /-- The text ends too early. -/
  | ended
  | malformed
  | mismatch (m : Mismatch)
  deriving DecidableEq, Repr

def isGap (c : Char) : Bool := c = ' ' || c = '\n' || c = '\t' || c = '\r'

def skipGap (s : Text) : Text := s.dropWhile isGap

/-- The rest of a known word. -/
def word : Text → Text → Except Fault Text
  | [], s => .ok s
  | _ :: _, [] => .error .ended
  | w :: ws, c :: s => if w = c then word ws s else .error .malformed

/-! ## Strings -/

/-- Four hexadecimal digits; a text with less than four bytes left has ended. -/
def hexQuad (s : Text) : Except Fault (Nat × Text) :=
  match s with
  | a :: b :: c :: d :: r =>
    match hexValue? a, hexValue? b, hexValue? c, hexValue? d with
    | some w, some x, some y, some z => .ok (((w * 16 + x) * 16 + y) * 16 + z, r)
    | _, _, _, _ => .error .malformed
  | _ => if bytes s < 4 then .error .ended else .error .malformed

/-- The character behind a `\u`; a leading surrogate needs its partner. -/
def unicodeEscape (s : Text) : Except Fault (Char × Text) := do
  let (n, s) ← hexQuad s
  if 0xDC00 ≤ n ∧ n ≤ 0xDFFF then throw .malformed
  if n < 0xD800 ∨ 0xDBFF < n then return (Char.ofNat n, s)
  match s with
  | [] => throw .ended
  | ['\\'] => throw .ended
  | '\\' :: 'u' :: s =>
    let (m, s) ← hexQuad s
    if m < 0xDC00 ∨ 0xDFFF < m then throw .malformed
    return (Char.ofNat (0x10000 + (n - 0xD800) * 0x400 + (m - 0xDC00)), s)
  | _ => throw .malformed

def letterEscape? (c : Char) : Option Char :=
  if c = '"' || c = '\\' || c = '/' then some c
  else if c = 'b' then some '\x08'
  else if c = 'f' then some '\x0c'
  else if c = 'n' then some '\n'
  else if c = 'r' then some '\r'
  else if c = 't' then some '\t'
  else none

/-- One character of a string, read behind its opening quote; `none` is the closing quote. -/
def stringChar : Text → Except Fault (Option Char × Text)
  | [] => .error .ended
  | '"' :: r => .ok (none, r)
  | ['\\'] => .error .ended
  | '\\' :: 'u' :: r => do
    let (c, r) ← unicodeEscape r
    return (some c, r)
  | '\\' :: e :: r =>
    match letterEscape? e with
    | some c => .ok (some c, r)
    | none => .error .malformed
  | c :: r => if c.toNat < 0x20 then .error .malformed else .ok (some c, r)

def stringFrom : Nat → Text → Except Fault (Text × Text)
  | 0, _ => .error .ended
  | fuel + 1, s => do
    match ← stringChar s with
    | (none, r) => return ([], r)
    | (some c, r) =>
      let (cs, r) ← stringFrom fuel r
      return (c :: cs, r)

/-- A string behind its opening quote. -/
def string (s : Text) : Except Fault (Text × Text) := stringFrom (s.length + 1) s

/-- Skips a string behind its opening quote. -/
def skipString : Text → Except Fault Text
  | [] => .error .ended
  | '"' :: r => .ok r
  | ['\\'] => .error .ended
  | '\\' :: e :: r =>
    if e = 'u' then
      match hexQuad r with
      | .error f => .error f
      | .ok _ => skipString r
    else if (letterEscape? e).isSome then skipString r
    else .error .malformed
  | c :: r => if c.toNat < 0x20 then .error .malformed else skipString r

/-! ## Numbers -/

def digitValue (c : Char) : Nat := c.toNat - 48

/-- The digits that a word of sixty-four bits takes, their number, and what follows them. -/
def gather (word : Nat) : Text → Nat × Nat × Text
  | [] => (word, 0, [])
  | c :: r =>
    if isAsciiDigit c ∧ word * 10 + digitValue c < 0x10000000000000000 then
      let (w, n, rest) := gather (word * 10 + digitValue c) r
      (w, n + 1, rest)
    else (word, 0, c :: r)

def tenTo (n : Nat) : Float := Float.ofScientific 1 false n

/-- A word brought down by steps of 308 decimal places, as long as it is not zero. -/
def scaleDown : Nat → Float → Nat → Float
  | 0, f, _ => f
  | fuel + 1, f, places =>
    if places ≤ 308 then f / tenTo places
    else if f == 0.0 then f
    else scaleDown fuel (f / tenTo 308) (places - 308)

def scale (negative : Bool) (word : Nat) (exponent : Int) : Except Fault Float :=
  let f := word.toUInt64.toFloat
  let signed (f : Float) : Float := if negative then -f else f
  if exponent < 0 then .ok (signed (scaleDown (exponent.natAbs / 308 + 1) f exponent.natAbs))
  else if 308 < exponent then (if word = 0 then .ok (signed f) else .error .malformed)
  else
    let g := f * tenTo exponent.toNat
    if g.isInf then .error .malformed else .ok (signed g)

/-- The exponent behind its letter. -/
def exponent (s : Text) : Except Fault (Int × Text) :=
  let (negative, s) := match s with
    | '+' :: r => (false, r)
    | '-' :: r => (true, r)
    | s => (false, s)
  match s with
  | [] => .error .ended
  | c :: r =>
    if isAsciiDigit c then
      let digits := c :: r.takeWhile isAsciiDigit
      let n := digits.foldl (fun n d => n * 10 + digitValue d) 0
      .ok (if negative then -(n : Int) else n, r.dropWhile isAsciiDigit)
    else .error .malformed

def isExponentMark (c : Char) : Bool := c = 'e' || c = 'E'

/-- What may follow the fraction of a number, or the whole part if it has none. -/
def scaled (negative : Bool) (word : Nat) (places : Int) (s : Text) :
    Except Fault (Number × Text) := do
  match s with
  | c :: r =>
    if isExponentMark c then
      let (e, r) ← exponent r
      return (.float (← scale negative word (places + e)), r)
    else return (.float (← scale negative word places), c :: r)
  | [] => return (.float (← scale negative word places), [])

/-- The number without its sign. -/
def magnitude (negative : Bool) (s : Text) : Except Fault (Number × Text) := do
  let (word, _, rest) ← match s with
    | [] => throw .ended
    | '0' :: r =>
      if (r.head?.map isAsciiDigit).getD false then throw .malformed
      else pure (0, 1, r)
    | c :: r => if isAsciiDigit c then pure (gather 0 (c :: r)) else throw .malformed
  let dropped := (rest.takeWhile isAsciiDigit).length
  match rest.dropWhile isAsciiDigit with
  | '.' :: r =>
    let (word, places, r) := gather word r
    if places = 0 ∧ !(r.head?.map isAsciiDigit).getD false then
      throw (if r.isEmpty then .ended else .malformed)
    scaled negative word (dropped - places) (r.dropWhile isAsciiDigit)
  | r =>
    if dropped = 0 ∧ !(r.head?.map isExponentMark).getD false then
      if !negative then return (.integer word, r)
      else if word = 0 ∨ 0x8000000000000000 < word then return (.float (-word.toUInt64.toFloat), r)
      else return (.integer (-word), r)
    else scaled negative word dropped r

def number : Text → Except Fault (Number × Text)
  | '-' :: r => magnitude true r
  | s => magnitude false s

/-- Skips at least one digit. -/
def skipDigits : Text → Except Fault Text
  | c :: r => if isAsciiDigit c then .ok (r.dropWhile isAsciiDigit) else .error .malformed
  | [] => .error .malformed

def skipExponent : Text → Except Fault Text
  | c :: r =>
    if isExponentMark c then
      match r with
      | '+' :: r => skipDigits r
      | '-' :: r => skipDigits r
      | r => skipDigits r
    else .ok (c :: r)
  | [] => .ok []

/-- Skips a number without its sign. -/
def skipMagnitude (s : Text) : Except Fault Text := do
  let rest ← match s with
    | '0' :: r => if (r.head?.map isAsciiDigit).getD false then throw .malformed else pure r
    | s => skipDigits s
  match rest with
  | '.' :: r => skipExponent (← skipDigits r)
  | r => skipExponent r

def skipNumber : Text → Except Fault Text
  | '-' :: r => skipMagnitude r
  | s => skipMagnitude s

end Replay.Json
