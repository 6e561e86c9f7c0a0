/-
  Replay.Json.Printer — JSON text.

  `compact` writes a value without blanks. `pretty` writes a mapping of names to strings
  with one member a line, four spaces deep; an empty mapping is a pair of braces. Strings
  escape the quote, the backslash and the controls below the space, and nothing else.
-/

import Replay.Json.Value
import Replay.Mismatch
import Replay.Number.Layout

namespace Replay.Json

open Text

/-! ## Strings -/

def escape (c : Char) : Text :=
  if c = '"' then ['\\', '"']
  else if c = '\\' then ['\\', '\\']
  else if c = '\n' then ['\\', 'n']
  else if c = '\r' then ['\\', 'r']
  else if c = '\t' then ['\\', 't']
  else if c.toNat = 8 then ['\\', 'b']
  else if c.toNat = 12 then ['\\', 'f']
  else if c.toNat < 32 then ['\\', 'u', '0', '0', hexDigit (c.toNat / 16), hexDigit (c.toNat % 16)]
  else [c]

def stringText (s : Text) : Text := '"' :: s.flatMap escape ++ ['"']

/-! ## Values -/

def Number.text : Number → Text
  | .integer i => integerText i
  | .float x => Number.Layout.short.text x

mutual

def compact : Value → Text
  | .null => ['n', 'u', 'l', 'l']
  | .bool true => ['t', 'r', 'u', 'e']
  | .bool false => ['f', 'a', 'l', 's', 'e']
  | .number n => n.text
  | .string s => stringText s
  | .array [] => ['[', ']']
  | .array (v :: vs) => '[' :: compact v ++ moreItems vs
  | .object [] => ['{', '}']
  | .object ((k, v) :: ms) => '{' :: stringText k ++ ':' :: compact v ++ moreMembers ms

/-- The further items of an array, and its end. -/
def moreItems : List Value → Text
  | [] => [']']
  | v :: vs => ',' :: compact v ++ moreItems vs

/-- The further members of an object, and its end. -/
def moreMembers : List (Text × Value) → Text
  | [] => ['}']
  | (k, v) :: ms => ',' :: stringText k ++ ':' :: compact v ++ moreMembers ms

end

/-- A string stands for itself, anything else for its text. -/
def plainText : Value → Text
  | .string s => s
  | v => compact v

/-! ## Mappings of names to strings -/

def prettyMember (m : Text × Text) : Text :=
  "    ".toList ++ stringText m.1 ++ ':' :: ' ' :: stringText m.2

def prettyRest : List (Text × Text) → Text
  | [] => ['\n', '}']
  | m :: ms => ',' :: '\n' :: prettyMember m ++ prettyRest ms

def pretty : List (Text × Text) → Text
  | [] => ['{', '}']
  | m :: ms => '{' :: '\n' :: prettyMember m ++ prettyRest ms

end Replay.Json
