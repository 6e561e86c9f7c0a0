/-
  Replay.Disk — a file system small enough to reason about.

  A disk holds files and directories by their location, the names on the way from the
  root. A path is followed name by name: every place on the way has to be a directory, and
  two dots lead to the parent. The last place need not exist. Reading asks for a file that
  is text; writing replaces a file or makes one in a directory that exists. There are no
  links, and nothing ever refuses access. What a disk cannot know is how much room is left:
  once its file was opened, a write is carried through (`write`) or breaks off behind some
  of the bytes (`breakOff`).

  Proved here: `entry_put`.
-/

import Replay.Path

namespace Replay

open Text

inductive Content where
  | text (t : Text)
  /-- Not UTF-8. -/
  | binary (bytes : List UInt8)
  deriving DecidableEq, Repr

def Content.ofBytes (b : ByteArray) : Content :=
  match String.fromUTF8? b with
  | some s => .text s.toList
  | none => .binary b.toList

/-- What a file holds of a text once its first bytes were written. -/
def Content.front (t : Text) (written : Nat) : Content :=
  .ofBytes ((String.ofList t).toByteArray.extract 0 written)

inductive Node where
  | directory
  | file (content : Content)
  deriving DecidableEq, Repr

inductive IoFault where
  | notFound
  | notDirectory
  | isDirectory
  | alreadyExists
  | notText
  deriving DecidableEq, Repr

def IoFault.message : IoFault → Text
  | notFound => "No such file or directory (os error 2)".toList
  | notDirectory => "Not a directory (os error 20)".toList
  | isDirectory => "Is a directory (os error 21)".toList
  | alreadyExists => "File exists (os error 17)".toList
  | notText => "stream did not contain valid UTF-8".toList

/-- The names on the way from the root. -/
abbrev Location := List Text

structure Disk where
  /-- Where relative paths start. -/
  cwd : Location
  nodes : List (Location × Node)
  deriving DecidableEq, Repr

namespace Disk

def nodeAt (place : Location) : List (Location × Node) → Option Node
  | [] => none
  | (l, n) :: ns => if l = place then some n else nodeAt place ns

def putAt (place : Location) (node : Node) : List (Location × Node) → List (Location × Node)
  | [] => [(place, node)]
  | (l, n) :: ns => if l = place then (l, node) :: ns else (l, n) :: putAt place node ns

/-- The root is always there. -/
def entry (d : Disk) (place : Location) : Option Node :=
  if place = [] then some .directory else nodeAt place d.nodes

def put (d : Disk) (place : Location) (node : Node) : Disk :=
  { d with nodes := putAt place node d.nodes }

/-! ## Following a path -/

def follow (d : Disk) (place : Location) : List Text → Except IoFault Location
  | [] => .ok place
  | n :: ns =>
    match d.entry place with
    | none => .error .notFound
    | some (.file _) => .error .notDirectory
    | some .directory => d.follow (if Path.isDotDot n then place.dropLast else place ++ [n]) ns

def start (d : Disk) (absolute : Bool) : Location := if absolute then [] else d.cwd

def locate (d : Disk) (p : Path) : Except IoFault Location :=
  if p = [] then .error .notFound else d.follow (d.start (Path.isAbsolute p)) (Path.names p)

/-- The path ends with a slash, so it can only lead to a directory. -/
def endsInSlash (p : Path) : Bool := p.getLast? = some '/'

/-- Slashes apart, the path ends with a single dot, so a directory has to come before it. -/
def endsInDot (p : Path) : Bool :=
  match ((Path.pieces p).filter (· ≠ [])).getLast? with
  | some last => Path.isDot last
  | none => false

def endsOpen (p : Path) : Bool := endsInSlash p || endsInDot p

/-! ## Reading and writing -/

def read (d : Disk) (p : Path) : Except IoFault Text := do
  let place ← d.locate p
  match d.entry place with
  | none => throw .notFound
  | some .directory => throw .isDirectory
  | some (.file c) =>
    if endsOpen p then throw .notDirectory
    match c with
    | .text t => return t
    | .binary _ => throw .notText

/-- Where a file of this path is written. -/
def target (d : Disk) (p : Path) : Except IoFault Location := do
  let place ← d.locate p
  match d.entry place with
  | some .directory => throw .isDirectory
  | e =>
    if endsInDot p then throw (if e.isNone then .notFound else .notDirectory)
    if endsInSlash p then throw .isDirectory
    return place

/-- The write is carried through. -/
def write (d : Disk) (p : Path) (c : Content) : Except IoFault Disk := do
  let place ← d.target p
  return d.put place (.file c)

/-- The write breaks off: the file was made or emptied, and holds what was written until then. -/
def breakOff (d : Disk) (p : Path) (t : Text) (written : Nat) : Except IoFault Disk :=
  d.write p (.front t written)

/-! ## Making directories -/

/-- Names without the path they were written in. -/
structure Route where
  absolute : Bool
  names : List Text
  deriving DecidableEq, Repr

def routeOf (p : Path) : Route := ⟨Path.isAbsolute p, Path.names p⟩

/-- The way to what holds the path's last name. -/
def parentOf (p : Path) : Route := ⟨Path.isAbsolute p, (Path.names p).dropLast⟩

def reach (d : Disk) (r : Route) : Except IoFault Location := d.follow (d.start r.absolute) r.names

def isDirectory (d : Disk) (r : Route) : Bool :=
  match d.reach r with
  | .ok place => d.entry place = some .directory
  | .error _ => false

def occupied (d : Disk) (r : Route) : Bool :=
  match d.reach r with
  | .ok place => (d.entry place).isSome
  | .error _ => false

def makeDirectory (d : Disk) (r : Route) : Except IoFault Disk := do
  let place ← d.reach r
  if (d.entry place).isSome then throw .alreadyExists
  return d.put place .directory

/-- A directory and whatever is missing above it; the names are given from the last to the first. -/
def makeAll (d : Disk) (absolute : Bool) : List Text → Disk × Except IoFault Unit
  | [] => (d, .ok ())
  | n :: above =>
    let here : Route := ⟨absolute, (n :: above).reverse⟩
    match d.makeDirectory here with
    | .ok d => (d, .ok ())
    | .error .notFound =>
      match makeAll d absolute above with
      | (d, .error f) => (d, .error f)
      | (d, .ok ()) =>
        match d.makeDirectory here with
        | .ok d => (d, .ok ())
        | .error f => (d, if d.isDirectory here then .ok () else .error f)
    | .error f => (d, if d.isDirectory here then .ok () else .error f)

def makeRoute (d : Disk) (r : Route) : Disk × Except IoFault Unit :=
  d.makeAll r.absolute r.names.reverse

/-- Make the directories in which the path's file is to stand, unless something stands there. -/
def makeParents (d : Disk) (p : Path) : Disk × Except IoFault Unit :=
  let r := parentOf p
  if r.names = [] ∨ d.occupied r then (d, .ok ()) else d.makeRoute r

/-! ## The whole tree -/

/-- A location as a path below the current directory. -/
def shown : Location → Path
  | [] => []
  | [n] => n
  | n :: ns => n ++ '/' :: shown ns

def below (d : Disk) : List (Location × Node) :=
  d.nodes.filterMap fun (l, n) =>
    if d.cwd.isPrefixOf l && l.length != d.cwd.length then some (l.drop d.cwd.length, n) else none

/-! ## Lemmas -/

theorem nodeAt_putAt (place other : Location) (node : Node) (ns : List (Location × Node)) :
    nodeAt other (putAt place node ns) = if other = place then some node else nodeAt other ns := by
  induction ns with
  | nil => by_cases h : place = other <;> simp [putAt, nodeAt, h, eq_comm]
  | cons e ns ih =>
    obtain ⟨l, n⟩ := e
    by_cases h : l = place
    · subst h
      by_cases ho : other = l
      · simp [putAt, nodeAt, ho]
      · simp [putAt, nodeAt, ho, Ne.symm ho]
    · simp only [putAt, h, if_false, nodeAt]
      by_cases ho : l = other
      · subst ho; simp [h]
      · simp [ho, ih]

theorem entry_put (d : Disk) {place : Location} (hp : place ≠ []) (other : Location) (node : Node) :
    (d.put place node).entry other = if other = place then some node else d.entry other := by
  unfold entry put
  by_cases h : other = []
  · subst h; simp [Ne.symm hp]
  · simp [h, nodeAt_putAt]

end Disk
end Replay
