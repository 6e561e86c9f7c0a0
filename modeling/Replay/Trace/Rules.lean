/-
  Replay.Trace.Rules — the six rules that turn a fuzzer's calls into test statements.

  A trace has a call on each line, such as `Market.buy(0xAB12,1)`. A call may be marked
  `*wait* ` and may be followed by the delay after which it is made. The rules, in the
  order in which they run:
  - `waits`: the mark goes.
  - `delays`: `call Time delay: d` becomes two lines, the delay and then the call, the
    call one level deeper.
  - `warps`: a line `Time delay: n …` becomes the statement that moves the clock by `n`.
  - `ends`: a bracket that only blanks and a carriage return follow on its line gets the
    `;` of a statement.
  - `addresses`: a hexadecimal argument with a comma behind it becomes an address.
  - `depths`: a line indented by less than eight blanks is indented by eight spaces.
-/

import Replay.Text.Word
import Replay.Trace.Pass

namespace Replay.Trace

open Text

/-! ## Words of a trace and of a test -/

def waitMark : Text := "*wait* ".toList
def delayMark : Text := "Time delay: ".toList
def warpHead : Text := "vm.warp(block.timestamp + ".toList
def addressHead : Text := "address(0x".toList
def level : Text := "    ".toList
def depth : Text := level ++ level

def isCallStart (c : Char) : Bool := isLetter c || c = '_'
def isCallChar (c : Char) : Bool := isCallStart c || isAsciiDigit c || c = '.'

/-- The name of a call with its opening bracket, and what is inside and behind it. -/
def callHead? : Text → Option (Text × Text)
  | [] => none
  | c :: r =>
    if isCallStart c then
      match r.dropWhile isCallChar with
      | '(' :: rest => some (c :: r.takeWhile isCallChar ++ ['('], rest)
      | _ => none
    else none

/-- Only blanks, and possibly one carriage return after them. -/
def isLineEnd (s : Text) : Bool :=
  match s.dropWhile isBlank with
  | [] => true
  | ['\r'] => true
  | _ => false

/-- A match that takes all of `s`, which is not empty. -/
def whole (s made : Text) : Find Text := ⟨s.length - 1, made⟩

/-! ## Rules -/

def waits : Rule Text := fun _ s =>
  (after? waitMark s).map fun _ => ⟨waitMark.length - 1, []⟩

/-- The call ends at the last closing bracket that a delay follows. -/
def delays : Rule Text
  | some _, _ => none
  | none, s => do
    let indent := s.takeWhile isBlank
    let (head, rest) ← callHead? (s.dropWhile isBlank)
    let (args, delay) ← cutLast (')' :: ' ' :: delayMark) rest
    return whole s (indent ++ delay.drop 2 ++ '\n' :: indent ++ level ++ head ++ args ++ [')'])

def warps : Rule Text
  | some _, _ => none
  | none, s => do
    let indent := s.takeWhile isBlank
    let rest ← after? delayMark (s.dropWhile isBlank)
    let seconds := rest.takeWhile isDigit
    guard (!seconds.isEmpty && (rest.dropWhile isDigit).head? = some ' ')
    return whole s (indent ++ warpHead ++ seconds ++ [')', ';'])

def ends : Rule Text
  | _, ')' :: rest =>
    if isLineEnd rest then some (whole (')' :: rest) (')' :: ';' :: rest)) else none
  | _, _ => none

def addresses : Rule Text
  | before, '0' :: 'x' :: rest =>
    let digits := rest.takeWhile isHex
    if startsWord before && !digits.isEmpty && (rest.dropWhile isHex).head? = some ',' then
      some ⟨digits.length + 2, addressHead ++ digits ++ [')', ',']⟩
    else none
  | _, _ => none

def depths : Rule Text
  | some _, _ => none
  | none, s =>
    let indent := s.takeWhile isBlank
    match s.dropWhile isBlank with
    | [] => none
    | c :: _ =>
      if indent.length < depth.length && !isSpace c then some ⟨indent.length, depth ++ [c]⟩
      else none

end Replay.Trace
