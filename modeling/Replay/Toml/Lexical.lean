/-
  Replay.Toml.Lexical — blanks, comments, keys, strings, numbers and dates of TOML.

  A reader takes a text and gives what it read and the text behind it, or nothing: why a
  document is no TOML is never told. Whole numbers have sixty-four bits with a sign. A
  float that is too large is refused, unless it is negative.
-/

import Replay.Text.Class
import Replay.Toml.Value

namespace Replay.Toml

open Text

/-! ## Blanks and lines -/

def skipBlanks (s : Text) : Text := s.dropWhile isBlank

def newline? : Text → Option Text
  | '\n' :: r => some r
  | '\r' :: '\n' :: r => some r
  | _ => none

/-- What may stand in a comment or a string. -/
def isPrintable (c : Char) : Bool := c = '\t' || (0x20 ≤ c.toNat && c.toNat != 0x7F)

/-- Blanks, perhaps a comment, and the end of the line or of the text. -/
def lineEnd (s : Text) : Option Text :=
  let rest := match skipBlanks s with
    | '#' :: r => r.dropWhile isPrintable
    | r => r
  if rest.isEmpty then some [] else newline? rest

/-- Blanks, line ends and comments, each of which ends its line. -/
def skipGapFrom : Bool → Text → Option Text
  | false, [] => some []
  | true, [] => none
  | _, '\r' :: '\n' :: r => skipGapFrom false r
  | _, '\n' :: r => skipGapFrom false r
  | true, c :: r => if isPrintable c then skipGapFrom true r else none
  | false, c :: r =>
    if isBlank c then skipGapFrom false r
    else if c = '#' then skipGapFrom true r
    else if c = '\r' then none
    else some (c :: r)

def skipGap (s : Text) : Option Text := skipGapFrom false s

/-! ## Strings -/

def hexNumber (count : Nat) (s : Text) : Option (Nat × Text) :=
  let digits := s.take count
  if digits.length = count then
    (digits.mapM hexValue?).map fun ds => (ds.foldl (fun n d => n * 16 + d) 0, s.drop count)
  else none

def scalar? (n : Nat) : Option Char := if n.isValidChar then some (Char.ofNat n) else none

/-- The character behind a backslash. -/
def escaped? : Text → Option (Char × Text)
  | [] => none
  | c :: r =>
    if c = 'b' then some ('\x08', r)
    else if c = 't' then some ('\t', r)
    else if c = 'n' then some ('\n', r)
    else if c = 'f' then some ('\x0c', r)
    else if c = 'r' then some ('\r', r)
    else if c = '"' then some ('"', r)
    else if c = '\\' then some ('\\', r)
    else if c = 'u' then do
      let (n, r) ← hexNumber 4 r
      return (← scalar? n, r)
    else if c = 'U' then do
      let (n, r) ← hexNumber 8 r
      return (← scalar? n, r)
    else none

/-- A string in double quotes, behind the first of them. -/
def basicFrom : Nat → Text → Option (Text × Text)
  | 0, _ => none
  | fuel + 1, s =>
    match s with
    | [] => none
    | '"' :: r => some ([], r)
    | '\\' :: r => do
      let (c, r) ← escaped? r
      let (cs, r) ← basicFrom fuel r
      return (c :: cs, r)
    | c :: r =>
      if isPrintable c then do
        let (cs, r) ← basicFrom fuel r
        return (c :: cs, r)
      else none

/-- A string in single quotes, behind the first of them. -/
def literal : Text → Option (Text × Text)
  | [] => none
  | c :: r =>
    if c = '\x27' then some ([], r)
    else if isPrintable c then do
      let (cs, r) ← literal r
      return (c :: cs, r)
    else none

/-- A run of up to two quotes belongs to the string; three end it, behind up to two more. -/
def quoteRun (quote : Char) (s : Text) : Nat := (s.takeWhile (· = quote)).length

/-- Blanks and line ends. -/
def skipBlankLines : Text → Text
  | [] => []
  | '\r' :: '\n' :: r => skipBlankLines r
  | c :: r => if isBlank c || c = '\n' then skipBlankLines r else c :: r

/-- What follows a backslash that ends its line, from the next character that is no blank. -/
def lineContinued? (s : Text) : Option Text := (newline? (skipBlanks s)).map skipBlankLines

/-- A string over several lines, behind its three quotes. -/
def longFrom (quote : Char) : Nat → Text → Option (Text × Text)
  | 0, _ => none
  | fuel + 1, s =>
    match s with
    | [] => none
    | c :: r =>
      if c = quote then
        let n := quoteRun quote s
        if n < 3 then do
          let (cs, r) ← longFrom quote fuel (s.drop n)
          return (s.take n ++ cs, r)
        else if n < 6 then some (s.take (n - 3), s.drop n)
        else none
      else if c = '\\' && quote = '"' then
        match lineContinued? r with
        | some r => longFrom quote fuel r
        | none => do
          let (c, r) ← escaped? r
          let (cs, r) ← longFrom quote fuel r
          return (c :: cs, r)
      else
        match newline? s with
        | some r => do
          let (cs, r) ← longFrom quote fuel r
          return ('\n' :: cs, r)
        | none =>
          if isPrintable c then do
            let (cs, r) ← longFrom quote fuel r
            return (c :: cs, r)
          else none

def long (quote : Char) (s : Text) : Option (Text × Text) :=
  longFrom quote (s.length + 1) ((newline? s).getD s)

def basic (s : Text) : Option (Text × Text) := basicFrom (s.length + 1) s

/-- A string of any kind. -/
def string : Text → Option (Text × Text)
  | '"' :: '"' :: '"' :: r => long '"' r
  | '"' :: r => basic r
  | '\x27' :: '\x27' :: '\x27' :: r => long '\x27' r
  | '\x27' :: r => literal r
  | _ => none

/-! ## Keys -/

def isBareKey (c : Char) : Bool := isLetter c || isAsciiDigit c || c = '_' || c = '-'

def simpleKey (s : Text) : Option (Text × Text) :=
  match s with
  | '"' :: r => basic r
  | '\x27' :: r => literal r
  | s =>
    let name := s.takeWhile isBareKey
    if name.isEmpty then none else some (name, s.dropWhile isBareKey)

def keyPathFrom : Nat → Text → Option (List Text × Text)
  | 0, _ => none
  | fuel + 1, s => do
    let (k, r) ← simpleKey (skipBlanks s)
    match skipBlanks r with
    | '.' :: r =>
      let (ks, r) ← keyPathFrom fuel r
      return (k :: ks, r)
    | r => return ([k], r)

/-- How deep keys, arrays and inline tables may go. -/
def maxDepth : Nat := 79

/-- A dotted key and the blanks around its parts. -/
def keyPath (s : Text) : Option (List Text × Text) := keyPathFrom maxDepth s

/-! ## Numbers -/

/-- Digits behind a digit; an underscore stands between two digits. -/
def moreDigits (isDig : Char → Bool) : Text → Option (Text × Text)
  | [] => some ([], [])
  | ['_'] => none
  | '_' :: d :: r =>
    if isDig d then (moreDigits isDig r).map fun (ds, r) => (d :: ds, r) else none
  | c :: r =>
    if isDig c then (moreDigits isDig r).map fun (ds, r) => (c :: ds, r) else some ([], c :: r)

def digitRun (isDig : Char → Bool) : Text → Option (Text × Text)
  | [] => none
  | c :: r =>
    if isDig c then (moreDigits isDig r).map fun (ds, r) => (c :: ds, r) else none

def sign : Text → Bool × Text
  | '-' :: r => (true, r)
  | '+' :: r => (false, r)
  | s => (false, s)

/-- The digits of a whole number without leading zeros. -/
def plainDigits : Text → Option (Text × Text)
  | '0' :: r => some (['0'], r)
  | s => digitRun isAsciiDigit s

def valueIn (base : Nat) (digits : Text) : Nat :=
  digits.foldl (fun n d => n * base + (hexValue? d).getD 0) 0

def bounded (negative : Bool) (n : Nat) : Option Int :=
  if negative then (if n ≤ 0x8000000000000000 then some (-(n : Int)) else none)
  else if n < 0x8000000000000000 then some n else none

def inBase (base : Nat) (isDig : Char → Bool) (s : Text) : Option (Int × Text) := do
  let (ds, r) ← digitRun isDig s
  return (← bounded false (valueIn base ds), r)

def integer (s : Text) : Option (Int × Text) :=
  match s with
  | '0' :: 'x' :: r => inBase 16 isHex r
  | '0' :: 'o' :: r => inBase 8 (fun c => '0' ≤ c && c ≤ '7') r
  | '0' :: 'b' :: r => inBase 2 (fun c => c = '0' || c = '1') r
  | s => do
    let (negative, s) := sign s
    let (ds, r) ← plainDigits s
    return (← bounded negative (valueIn 10 ds), r)

def exponent? : Text → Option (Int × Text)
  | c :: r =>
    if c = 'e' || c = 'E' then do
      let (negative, r) := sign r
      let (ds, r) ← digitRun isAsciiDigit r
      let n : Int := valueIn 10 ds
      return (if negative then -n else n, r)
    else none
  | [] => none

/-- The float nearest to `digits * 10 ^ exponent`. -/
def nearest (digits : Text) (exponent : Int) : Float :=
  let m := valueIn 10 digits
  let top := ((decimal m).length : Int) + exponent
  if m = 0 || top < -400 then 0.0
  else if 400 < top then 1.0 / 0.0
  else Float.ofScientific m (exponent < 0) exponent.natAbs

def signed (negative : Bool) (x : Float) : Option Float :=
  if negative then some (-x) else if x.isInf then none else some x

def float (s : Text) : Option (Float × Text) := do
  let (negative, s) := sign s
  match after? "inf".toList s, after? "nan".toList s with
  | some r, _ => return (if negative then -(1.0 / 0.0) else 1.0 / 0.0, r)
  | none, some r => return (0.0 / 0.0, r)
  | none, none =>
    let (whole, r) ← plainDigits s
    match r with
    | '.' :: r =>
      let (fraction, r) ← digitRun isAsciiDigit r
      let (e, r) := (exponent? r).getD (0, r)
      return (← signed negative (nearest (whole ++ fraction) (e - fraction.length)), r)
    | r =>
      let (e, r) ← exponent? r
      return (← signed negative (nearest whole e), r)

/-! ## Dates and times -/

def fixedNumber (count : Nat) (s : Text) : Option (Nat × Text) :=
  let digits := s.take count
  if digits.length = count && digits.all isAsciiDigit then some (valueIn 10 digits, s.drop count)
  else none

def within (low high : Nat) (read : Option (Nat × Text)) : Option (Nat × Text) :=
  read.filter fun (n, _) => low ≤ n && n ≤ high

def mark (c : Char) : Text → Option Text
  | d :: r => if d = c then some r else none
  | [] => none

def daysIn (year month : Nat) : Nat :=
  if month = 2 then
    if year % 4 = 0 && (year % 100 != 0 || year % 400 = 0) then 29 else 28
  else if month = 4 || month = 6 || month = 9 || month = 11 then 30
  else 31

def date (s : Text) : Option Text := do
  let (year, r) ← fixedNumber 4 s
  let (month, r) ← within 1 12 (fixedNumber 2 (← mark '-' r))
  let (_, r) ← within 1 (daysIn year month) (fixedNumber 2 (← mark '-' r))
  return r

def hourMinute (s : Text) : Option Text := do
  let (_, r) ← within 0 23 (fixedNumber 2 s)
  let (_, r) ← within 0 59 (fixedNumber 2 (← mark ':' r))
  return r

def time (s : Text) : Option Text := do
  let (_, r) ← within 0 60 (fixedNumber 2 (← mark ':' (← hourMinute s)))
  match r with
  | '.' :: t =>
    let t' := t.dropWhile isAsciiDigit
    return if t'.length < t.length then t' else r
  | _ => return r

def offset? : Text → Option Text
  | c :: r =>
    if c = 'Z' || c = 'z' then some r
    else if c = '+' || c = '-' then hourMinute r
    else none
  | [] => none

def datetime (s : Text) : Option Text :=
  match date s with
  | none => time s
  | some r =>
    match r with
    | c :: t =>
      if c = 'T' || c = 't' || c = ' ' then
        match time t with
        | some t => some ((offset? t).getD t)
        | none => some r
      else some r
    | [] => some []

end Replay.Toml
