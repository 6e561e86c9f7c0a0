/-
  Replay.Json.Reader — values and structures read from JSON text.

  Everything is read in the order of the text, and the first fault is the one reported: a
  record whose first field has the wrong type is refused for that, whatever follows it.
  Arrays and objects may stand 127 deep; what is skipped may stand as deep as it likes.
-/

import Replay.Json.Lexical
import Replay.Json.Printer

namespace Replay.Json

open Text

/-! ## Arrays and objects -/

/-- Where an array or an object goes on: at its end, or with a further part. -/
inductive Next (α : Type) where
  | stop (rest : Text)
  | more (part : α) (rest : Text)

def nextItem (first : Bool) (s : Text) : Except Fault (Next Unit) :=
  match skipGap s with
  | [] => .error .ended
  | ']' :: r => .ok (.stop r)
  | c :: r =>
    if first then .ok (.more () (c :: r))
    else if c = ',' then
      match skipGap r with
      | [] => .error .ended
      | ']' :: _ => .error .malformed
      | t => .ok (.more () t)
    else .error .malformed

/-- A key, read behind its quote. -/
def keyAt {α : Type} (key : Text → Except Fault (α × Text)) (s : Text) : Except Fault (Next α) := do
  match s with
  | [] => throw .ended
  | '"' :: r =>
    let (k, r) ← key r
    return .more k r
  | _ => throw .malformed

def nextKey {α : Type} (key : Text → Except Fault (α × Text)) (first : Bool) (s : Text) :
    Except Fault (Next α) :=
  match skipGap s with
  | [] => .error .ended
  | '}' :: r => .ok (.stop r)
  | c :: r =>
    if first then keyAt key (c :: r)
    else if c = ',' then keyAt key (skipGap r)
    else .error .malformed

def colon (s : Text) : Except Fault Text :=
  match skipGap s with
  | [] => .error .ended
  | ':' :: r => .ok r
  | _ => .error .malformed

/-- The items behind an opening bracket, up to the closing one. -/
def items {α : Type} (item : Text → Except Fault (α × Text)) :
    Nat → Bool → Text → Except Fault (List α × Text)
  | 0, _, _ => .error .ended
  | fuel + 1, first, s => do
    match ← nextItem first s with
    | .stop r => return ([], r)
    | .more () r =>
      let (a, r) ← item r
      let (as, r) ← items item fuel false r
      return (a :: as, r)

/-- The members behind an opening brace, each taken into a state in turn. -/
def members {κ σ : Type} (key : Text → Except Fault (κ × Text))
    (take : σ → κ → Text → Except Fault (σ × Text)) :
    Nat → Bool → σ → Text → Except Fault (σ × Text)
  | 0, _, _, _ => .error .ended
  | fuel + 1, first, st, s => do
    match ← nextKey key first s with
    | .stop r => return (st, r)
    | .more k r =>
      let (st, r) ← take st k r
      members key take fuel false st r

def allItems {α : Type} (item : Text → Except Fault (α × Text)) (s : Text) :
    Except Fault (List α × Text) :=
  items item (s.length + 1) true s

def allMembers {κ σ : Type} (key : Text → Except Fault (κ × Text))
    (take : σ → κ → Text → Except Fault (σ × Text)) (st : σ) (s : Text) : Except Fault (σ × Text) :=
  members key take (s.length + 1) true st s

/-! ## Values -/

/-- A value with room for `room` brackets inside one another. -/
def value (room : Nat) (s : Text) : Except Fault (Value × Text) := do
  match skipGap s with
  | [] => throw .ended
  | 'n' :: r => return (.null, ← word "ull".toList r)
  | 't' :: r => return (.bool true, ← word "rue".toList r)
  | 'f' :: r => return (.bool false, ← word "alse".toList r)
  | '"' :: r =>
    let (t, r) ← string r
    return (.string t, r)
  | '[' :: r =>
    match room with
    | 0 => throw .malformed
    | room + 1 =>
      let (vs, r) ← allItems (value room) r
      return (.array vs, r)
  | '{' :: r =>
    match room with
    | 0 => throw .malformed
    | room + 1 =>
      let (ms, r) ← allMembers string (fun ms k r => do
        let (v, r) ← value room (← colon r)
        return (ms ++ [(k, v)], r)) [] r
      return (.object ms, r)
  | c :: r =>
    if c = '-' || isAsciiDigit c then
      let (n, r) ← number (c :: r)
      return (.number n, r)
    else throw .malformed

/-- Skips a value; `room` only has to be large enough. -/
def skipValue (room : Nat) (s : Text) : Except Fault Text := do
  match skipGap s with
  | [] => throw .ended
  | 'n' :: r => word "ull".toList r
  | 't' :: r => word "rue".toList r
  | 'f' :: r => word "alse".toList r
  | '"' :: r => skipString r
  | '[' :: r =>
    match room with
    | 0 => throw .ended
    | room + 1 =>
      let (_, r) ← allItems (fun r => do return ((), ← skipValue room r)) r
      return r
  | '{' :: r =>
    match room with
    | 0 => throw .ended
    | room + 1 =>
      let (_, r) ← allMembers (fun r => do return ((), ← skipString r))
        (fun _ _ r => do return ((), ← skipValue room (← colon r))) () r
      return r
  | c :: r => if c = '-' || isAsciiDigit c then skipNumber (c :: r) else throw .malformed

/-- How deep brackets may stand. -/
def maxDepth : Nat := 127

/-- A whole text: nothing but blanks may follow. -/
def document {α : Type} (read : Text → Except Fault (α × Text)) (s : Text) : Except Fault α := do
  let (a, r) ← read s
  if (skipGap r).isEmpty then return a else throw .malformed

def parse (s : Text) : Except Fault Value := document (value maxDepth) s

/-! ## Parts of a structure -/

/-- The value that stands where something else is expected. -/
def refuse {α : Type} (expected : Text) (s : Text) : Except Fault α := do
  let found ← match skipGap s with
    | [] => throw .ended
    | 'n' :: r => do
      let _ ← word "ull".toList r
      pure Found.null
    | 't' :: r => do
      let _ ← word "rue".toList r
      pure (Found.boolean true)
    | 'f' :: r => do
      let _ ← word "alse".toList r
      pure (Found.boolean false)
    | '"' :: r => do
      let (t, _) ← string r
      pure (Found.string t)
    | '[' :: _ => pure Found.sequence
    | '{' :: _ => pure Found.map
    | c :: r =>
      if c = '-' || isAsciiDigit c then do
        match ← number (c :: r) with
        | (.integer i, _) => pure (Found.integer i)
        | (.float x, _) => pure (Found.float (Number.Layout.short.text x))
      else throw .malformed
  throw (.mismatch (.wrongType found expected))

def text (s : Text) : Except Fault (Text × Text) :=
  match skipGap s with
  | '"' :: r => string r
  | t => refuse "a string".toList t

def optional {α : Type} (read : Text → Except Fault (α × Text)) (s : Text) :
    Except Fault (Option α × Text) := do
  match skipGap s with
  | 'n' :: r => return (none, ← word "ull".toList r)
  | t =>
    let (a, r) ← read t
    return (some a, r)

def sequence {α : Type} (item : Text → Except Fault (α × Text)) (s : Text) :
    Except Fault (List α × Text) :=
  match skipGap s with
  | '[' :: r => allItems item r
  | t => refuse "a sequence".toList t

/-- The end of an array whose items have all been read. -/
def closeItems (s : Text) : Except Fault Text :=
  match skipGap s with
  | [] => .error .ended
  | ']' :: r => .ok r
  | _ => .error .malformed

end Replay.Json
