/-
  Replay.Deploy.Book — the address book: which contract stands where.

  A book maps names to checksummed addresses in the order in which the names first came
  up. A name that comes up again takes the newer address and keeps its place. A record is
  entered transaction by transaction; the first one that is no proper deployment ends it,
  and what was entered before stays.

  Proved here: `put_keys` (a name is entered once), `lookup_put`.
-/

import Replay.Deploy.Record
import Replay.Address

namespace Replay.Deploy

open Text

/-- Names with their addresses. -/
structure Book where
  entries : List (Text × Text)
  deriving DecidableEq, Repr

def putIn (name address : Text) : List (Text × Text) → List (Text × Text)
  | [] => [(name, address)]
  | (n, a) :: es => if n = name then (n, address) :: es else (n, a) :: putIn name address es

def lookupIn (name : Text) : List (Text × Text) → Option Text
  | [] => none
  | (n, a) :: es => if n = name then some a else lookupIn name es

namespace Book

def empty : Book := ⟨[]⟩

def size (b : Book) : Nat := b.entries.length

def lookup (b : Book) (name : Text) : Option Text := lookupIn name b.entries

def put (b : Book) (d : Deployment) : Book := ⟨putIn d.name (Address.checksum d.address) b.entries⟩

def putReport (b : Book) (d : Deployment) : List Event :=
  Address.report d.address ++ [.deployed d.name (Address.checksum d.address)] ++
    ((b.lookup d.name).map (.redeployed d.name)).toList

def putAll (b : Book) (ds : List Deployment) : Book := ds.foldl put b

def putAllReport : Book → List Deployment → List Event
  | _, [] => []
  | b, d :: ds => b.putReport d ++ putAllReport (b.put d) ds

/-- The book with a record entered as far as it goes, and what ended it. -/
def extend (rename : Rename) (b : Book) (r : Record) : Book × Option Fault :=
  (b.putAll (r.deployments rename).1, (r.deployments rename).2)

def extendReport (rename : Rename) (b : Book) (r : Record) : List Event :=
  b.putAllReport (r.deployments rename).1

def extendAll (rename : Rename) : Book → List Record → Except Fault Book
  | b, [] => .ok b
  | b, r :: rs =>
    match b.extend rename r with
    | (_, some f) => .error f
    | (b, none) => extendAll rename b rs

def extendAllReport (rename : Rename) : Book → List Record → List Event
  | _, [] => []
  | b, r :: rs =>
    b.extendReport rename r ++
      match b.extend rename r with
      | (_, some _) => []
      | (b, none) => extendAllReport rename b rs

def ofRecords (rename : Rename) (rs : List Record) : Except Fault Book := empty.extendAll rename rs

def text (b : Book) : Text := Json.pretty b.entries

end Book

/-! ## Entering a name -/

theorem keys_putIn (name address : Text) (es : List (Text × Text)) :
    (putIn name address es).map (·.1) =
      if name ∈ es.map (·.1) then es.map (·.1) else es.map (·.1) ++ [name] := by
  induction es with
  | nil => simp [putIn]
  | cons e es ih =>
    obtain ⟨n, a⟩ := e
    by_cases h : n = name
    · subst h; simp [putIn]
    · have h' : name ≠ n := fun e => h e.symm
      simp only [putIn, h, if_false, List.map_cons, ih, List.mem_cons, h', false_or]
      split <;> simp

theorem lookupIn_putIn (name address other : Text) (es : List (Text × Text)) :
    lookupIn other (putIn name address es) =
      if other = name then some address else lookupIn other es := by
  induction es with
  | nil => by_cases h : name = other <;> simp [putIn, lookupIn, h, eq_comm]
  | cons e es ih =>
    obtain ⟨n, a⟩ := e
    by_cases h : n = name
    · subst h
      by_cases ho : other = n
      · simp [putIn, lookupIn, ho]
      · simp [putIn, lookupIn, ho, Ne.symm ho]
    · simp only [putIn, h, if_false, lookupIn]
      by_cases ho : n = other
      · subst ho; simp [h]
      · simp [ho, ih]

theorem lookup_put (b : Book) (d : Deployment) (other : Text) :
    (b.put d).lookup other =
      if other = d.name then some (Address.checksum d.address) else b.lookup other :=
  lookupIn_putIn ..

theorem put_keys (b : Book) (d : Deployment) :
    (b.put d).entries.map (·.1) =
      if d.name ∈ b.entries.map (·.1) then b.entries.map (·.1)
      else b.entries.map (·.1) ++ [d.name] :=
  keys_putIn ..

end Replay.Deploy
