/-
  Replay.Deploy.Reader — records read from JSON text.

  A record and a transaction are objects, or arrays of their fields in order. Of a
  transaction only the kind is required, and an array may end before the other three. Keys
  that are not asked for are skipped; a known key may stand once.
-/

import Replay.Json.Reader
import Replay.Deploy.Record

namespace Replay.Deploy

open Text Json

/-- What has been read of a transaction so far. -/
structure Draft where
  kind : Option Text := none
  name : Option (Option Text) := none
  address : Option (Option Text) := none
  arguments : Option (Option (List Value)) := none

def kindField : Text := "transactionType".toList
def nameField : Text := "contractName".toList
def addressField : Text := "contractAddress".toList
def argumentsField : Text := "arguments".toList
def transactionsField : Text := "transactions".toList

/-- Record, list, transaction and list of arguments stand around an argument. -/
def argument (s : Text) : Except Json.Fault (Value × Text) := do
  let (v, r) ← value (maxDepth - 4) s
  return (v.sorted, r)

def arguments (s : Text) : Except Json.Fault (Option (List Value) × Text) :=
  optional (sequence argument) s

/-- A field that may stand once. -/
def once {α : Type} (field : Text) (old : Option α) (read : Text → Except Json.Fault (α × Text))
    (s : Text) : Except Json.Fault (Option α × Text) := do
  if old.isSome then throw (.mismatch (.duplicateField field))
  let (a, r) ← read (← colon s)
  return (some a, r)

def skipField (s : Text) : Except Json.Fault Text := do
  skipValue s.length (← colon s)

def takeField (d : Draft) (key s : Text) : Except Json.Fault (Draft × Text) := do
  if key = kindField then
    let (v, r) ← once key d.kind text s
    return ({ d with kind := v }, r)
  else if key = nameField then
    let (v, r) ← once key d.name (optional text) s
    return ({ d with name := v }, r)
  else if key = addressField then
    let (v, r) ← once key d.address (optional text) s
    return ({ d with address := v }, r)
  else if key = argumentsField then
    let (v, r) ← once key d.arguments arguments s
    return ({ d with arguments := v }, r)
  else return (d, ← skipField s)

def Draft.finish (d : Draft) : Except Json.Fault Transaction :=
  match d.kind with
  | none => .error (.mismatch (.missingField kindField))
  | some kind => .ok ⟨kind, d.name.join, d.address.join, d.arguments.join⟩

/-- Behind an array, or behind one of its items. -/
inductive Place where
  | closed (rest : Text)
  | behind (rest : Text)

/-- A field of an array that may have ended before it. -/
def trailing {α : Type} (read : Text → Except Json.Fault (Option α × Text)) :
    Place → Except Json.Fault (Option α × Place)
  | .closed r => .ok (none, .closed r)
  | .behind r => do
    match ← nextItem false r with
    | .stop r => return (none, .closed r)
    | .more () r =>
      let (a, r) ← read r
      return (a, .behind r)

/-- The end of an array after its last field. -/
def close : Place → Except Json.Fault Text
  | .closed r => .ok r
  | .behind r => closeItems r

def transactionName : Text := "BroadcastTx".toList
def recordName : Text := "BroadcastRecord".toList

def structName (name : Text) : Text := "struct ".toList ++ name

def transaction (s : Text) : Except Json.Fault (Transaction × Text) := do
  match skipGap s with
  | '[' :: r =>
    match ← nextItem true r with
    | .stop _ => throw (.mismatch (.wrongLength 0 transactionName 4))
    | .more () r =>
      let (kind, r) ← text r
      let (name, r) ← trailing (optional text) (.behind r)
      let (address, r) ← trailing (optional text) r
      let (args, r) ← trailing arguments r
      return (⟨kind, name, address, args⟩, ← close r)
  | '{' :: r =>
    let (d, r) ← allMembers string takeField {} r
    return (← d.finish, r)
  | t => refuse (structName transactionName) t

def takeTransactions (old : Option (List Transaction)) (key s : Text) :
    Except Json.Fault (Option (List Transaction) × Text) := do
  if key = transactionsField then once key old (sequence transaction) s
  else return (old, ← skipField s)

def record (s : Text) : Except Json.Fault (Record × Text) := do
  match skipGap s with
  | '[' :: r =>
    match ← nextItem true r with
    | .stop _ => throw (.mismatch (.wrongLength 0 recordName 1))
    | .more () r =>
      let (ts, r) ← sequence transaction r
      return (⟨ts⟩, ← closeItems r)
  | '{' :: r =>
    match ← allMembers string takeTransactions none r with
    | (some ts, r) => return (⟨ts⟩, r)
    | (none, _) => throw (.mismatch (.missingField transactionsField))
  | t => refuse (structName recordName) t

def Record.parse (s : Text) : Except Json.Fault Record := document record s

end Replay.Deploy
