/-
  Replay.Toml.Tables — how headers and keys build up a document.

  A document is a root and the table that is being filled. A header puts the filled table
  into the root and opens the next one: a new one, or one that so far was only on the way
  to others, which then moves to the end of its parent. A table is opened once. A dotted
  key may add only to tables that dotted keys made. Every step that breaks a rule is
  refused.
-/

import Replay.Toml.Value

namespace Replay.Toml

/-- Change what stands under a key, or add it behind the other entries. -/
def alter {α : Type} (key : Text) (f : Option Value → Option (α × Value)) :
    Entries → Option (α × Entries)
  | [] => (f none).map fun (a, v) => (a, [(key, v)])
  | (k, v) :: es =>
    if k = key then (f (some v)).map fun (a, w) => (a, (k, w) :: es)
    else (alter key f es).map fun (a, es) => (a, (k, v) :: es)

def alterLast {α β : Type} (f : β → Option (α × β)) : List β → Option (α × List β)
  | [] => none
  | [b] => (f b).map fun (a, b) => (a, [b])
  | b :: bs => (alterLast f bs).map fun (a, bs) => (a, b :: bs)

/-- Change the table at the end of a header's path; a repeated table stands for its last one. -/
def under {α : Type} (f : Entries → Option (α × Entries)) :
    List Text → Entries → Option (α × Entries)
  | [], es => f es
  | p :: ps, es => alter p (fun
      | none => (under f ps []).map fun (a, sub) => (a, .table .implied sub)
      | some (.table .inline _) => none
      | some (.table form sub) => (under f ps sub).map fun (a, sub) => (a, .table form sub)
      | some (.tables items) =>
        (alterLast (under f ps) items).map fun (a, items) => (a, .tables items)
      | some _ => none) es

/-- Enter a value under a dotted key, in front of whose last part `path` stands. -/
def assign (key : Text) (v : Value) : List Text → Entries → Option Entries
  | [], es => (alter key (fun
      | none => some ((), v)
      | some _ => none) es).map (·.2)
  | p :: ps, es => (alter p (fun
      | none => (assign key v ps []).map fun sub => ((), .table .dotted sub)
      | some (.table .dotted sub) => (assign key v ps sub).map fun sub => ((), .table .dotted sub)
      | some (.table .implied sub) =>
        if ps.isEmpty then none
        else (assign key v ps sub).map fun sub => ((), .table .implied sub)
      | some (.tables items) =>
        if ps.isEmpty then none
        else (alterLast (fun sub => (assign key v ps sub).map fun sub => ((), sub)) items).map
          fun (a, items) => (a, .tables items)
      | some _ => none) es).map (·.2)

structure Draft where
  root : Entries
  /-- The header of the table that is being filled. -/
  path : List Text
  repeated : Bool
  current : Entries

namespace Draft

def start : Draft := ⟨[], [], false, []⟩

def putTable (key : Text) (filled es : Entries) : Option (Unit × Entries) :=
  alter key (fun
    | none => some ((), .table .header filled)
    | some _ => none) es

def putRepeated (key : Text) (filled es : Entries) : Option (Unit × Entries) :=
  alter key (fun
    | none => some ((), .tables [filled])
    | some (.tables items) => some ((), .tables (items ++ [filled]))
    | some _ => none) es

/-- The document with the filled table in it. -/
def close (d : Draft) : Option Entries :=
  match d.path.getLast? with
  | none => some d.current
  | some key =>
    let put := if d.repeated then putRepeated key d.current else putTable key d.current
    (under put d.path.dropLast d.root).map (·.2)

/-- Take a table out that was only on the way to others. -/
def takeImplied (key : Text) (es : Entries) : Option (Entries × Entries) :=
  match lookup key es with
  | none => some ([], es)
  | some (.table .implied sub) => some (sub, erase key es)
  | some _ => none

def reserve (key : Text) (es : Entries) : Option (Unit × Entries) :=
  alter key (fun
    | none => some ((), .tables [])
    | some (.tables items) => some ((), .tables items)
    | some _ => none) es

def openTable (d : Draft) (path : List Text) : Option Draft := do
  let root ← d.close
  let (current, root) ← under (takeImplied (path.getLast?.getD [])) path.dropLast root
  return ⟨root, path, false, current⟩

def openRepeated (d : Draft) (path : List Text) : Option Draft := do
  let root ← d.close
  let ((), root) ← under (reserve (path.getLast?.getD [])) path.dropLast root
  return ⟨root, path, true, []⟩

def put (d : Draft) (path : List Text) (v : Value) : Option Draft := do
  let current ← assign (path.getLast?.getD []) v path.dropLast d.current
  return { d with current := current }

end Draft

/-- An inline table of its entries. -/
def inlineTable (pairs : List (List Text × Value)) : Option Value := do
  let es ← pairs.foldlM (fun es (path, v) => assign (path.getLast?.getD []) v path.dropLast es) []
  return .table .inline es

end Replay.Toml
