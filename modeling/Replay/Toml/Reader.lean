/-
  Replay.Toml.Reader — a TOML document from its text.

  A document is a series of lines: headers, and keys with their values. Arrays and inline
  tables may stand one inside another up to the depth that keys have. The lines are
  entered one after the other, so the document that comes out has everything in the order
  of the text.
-/

import Replay.Toml.Lexical
import Replay.Toml.Tables

namespace Replay.Toml

open Text

/-- The items of an array, behind its bracket or behind a comma. -/
def items (item : Text → Option (Value × Text)) : Nat → Text → Option (List Value × Text)
  | 0, _ => none
  | fuel + 1, s => do
    match ← skipGap s with
    | ']' :: r => return ([], r)
    | s =>
      let (v, r) ← item s
      match ← skipGap r with
      | ']' :: r => return ([v], r)
      | ',' :: r =>
        let (vs, r) ← items item fuel r
        return (v :: vs, r)
      | _ => none

def pair (item : Text → Option (Value × Text)) (s : Text) :
    Option ((List Text × Value) × Text) := do
  let (path, r) ← keyPath s
  let (v, r) ← item (skipBlanks (← mark '=' r))
  return ((path, v), r)

/-- The entries of an inline table from one of them on. -/
def pairs (item : Text → Option (Value × Text)) :
    Nat → Text → Option (List (List Text × Value) × Text)
  | 0, _ => none
  | fuel + 1, s => do
    let (p, r) ← pair item s
    match skipBlanks r with
    | '}' :: r => return ([p], r)
    | ',' :: r =>
      let (ps, r) ← pairs item fuel r
      return (p :: ps, r)
    | _ => none

def scalar (s : Text) : Option (Value × Text) :=
  match s with
  | [] => none
  | c :: _ =>
    if c = '"' || c = '\x27' then (string s).map fun (t, r) => (.string t, r)
    else if c = 't' then (after? "true".toList s).map fun r => (.boolean true, r)
    else if c = 'f' then (after? "false".toList s).map fun r => (.boolean false, r)
    else if c = 'i' || c = 'n' then (float s).map fun (x, r) => (.float x, r)
    else if c = '+' || c = '-' || isAsciiDigit c then
      match datetime s with
      | some r => some (.datetime, r)
      | none =>
        match float s with
        | some (x, r) => some (.float x, r)
        | none => (integer s).map fun (i, r) => (.integer i, r)
    else none

/-- A value with room for `room` brackets inside one another. -/
def value (room : Nat) (s : Text) : Option (Value × Text) := do
  match s with
  | '[' :: r =>
    match room with
    | 0 => none
    | room + 1 =>
      let (vs, r) ← items (value room) (r.length + 1) r
      return (.array vs, r)
  | '{' :: r =>
    match room with
    | 0 => none
    | room + 1 =>
      match skipBlanks r with
      | '}' :: r => return (.table .inline [], r)
      | r =>
        let (ps, r) ← pairs (value room) (r.length + 1) r
        return (← inlineTable ps, r)
  | s => scalar s

/-- One line that is neither blank nor a comment. -/
def line (d : Draft) (s : Text) : Option (Draft × Text) :=
  match s with
  | '[' :: '[' :: r => do
    let (path, r) ← keyPath r
    let r ← lineEnd (← mark ']' (← mark ']' r))
    return (← d.openRepeated path, r)
  | '[' :: r => do
    let (path, r) ← keyPath r
    let r ← lineEnd (← mark ']' r)
    return (← d.openTable path, r)
  | s => do
    let ((path, v), r) ← pair (value maxDepth) s
    return (← d.put path v, ← lineEnd r)

def linesFrom : Nat → Draft → Text → Option Entries
  | 0, _, _ => none
  | fuel + 1, d, s =>
    match skipBlanks s with
    | [] => d.close
    | '#' :: r => do linesFrom fuel d (← lineEnd ('#' :: r))
    | s =>
      match newline? s with
      | some r => linesFrom fuel d r
      | none => do
        let (d, r) ← line d s
        linesFrom fuel d r

/-- The text without a byte order mark. -/
def unmarked : Text → Text
  | c :: r => if c.toNat = 0xFEFF then r else c :: r
  | [] => []

/-- The root table of a document. -/
def parse (s : Text) : Option Entries := linesFrom (s.length + 1) .start (unmarked s)

end Replay.Toml
