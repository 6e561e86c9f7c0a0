/-
  Replay.Main — the programs on real files.

  The first word names the program, the others are its command line. A script is carried
  out step by step: its reports are printed as they come, and its files are the real ones.
  What a step may answer is what a `Disk` may answer, so a failure that a disk does not
  know shows as the nearest one that it does.
-/

import Replay.Command.Program

namespace Replay

open Text

/-- A time as a whole and up to nine places of a unit. -/
def elapsedText (nanoseconds : Nat) : Text :=
  let unit (scale : Nat) (places : Nat) (name : Text) : Text :=
    let rest := nanoseconds % scale
    let digits := decimal rest
    let fraction :=
      dropEndWhile (· = '0') (List.replicate (places - digits.length) '0' ++ digits)
    decimal (nanoseconds / scale) ++ (if fraction.isEmpty then [] else '.' :: fraction) ++ name
  if 1000000000 ≤ nanoseconds then unit 1000000000 9 ['s']
  else if 1000000 ≤ nanoseconds then unit 1000000 6 ['m', 's']
  else if 1000 ≤ nanoseconds then unit 1000 3 ['µ', 's']
  else decimal nanoseconds ++ ['n', 's']

/-- The nearest fault of a disk. -/
def faultOf : IO.Error → IoFault
  | .noFileOrDirectory _ _ _ => .notFound
  | .alreadyExists _ _ _ => .alreadyExists
  | .inappropriateType _ code _ => if code = 20 then .notDirectory else .isDirectory
  | .resourceVanished _ _ => .notFound
  | _ => .notFound

def readFile (p : Path) : IO (Except IoFault Text) := do
  try
    match Content.ofBytes (← IO.FS.readBinFile (String.ofList p)) with
    | .text t => return .ok t
    | .binary _ => return .error .notText
  catch e => return .error (faultOf e)

def writeFile (p : Path) (t : Text) : IO (Except IoFault Unit) := do
  try
    IO.FS.writeFile (String.ofList p) (String.ofList t)
    return .ok ()
  catch e => return .error (faultOf e)

def routeText (r : Disk.Route) : String :=
  String.ofList ((if r.absolute then ['/'] else []) ++ Disk.shown r.names)

def makeParentDirectories (p : Path) : IO (Except IoFault Unit) := do
  let r := Disk.parentOf p
  if r.names.isEmpty then return .ok ()
  try
    IO.FS.createDirAll (routeText r)
    return .ok ()
  catch e => return .error (faultOf e)

/-- Carry a script out; `started` is when it began. -/
def perform {α : Type} (started : Nat) : Script α → IO (Except Problem α)
  | .done a => return .ok a
  | .fail p => return .error p
  | .note e next => do
    let took := elapsedText ((← IO.monoNanosNow) - started)
    IO.print (String.ofList (Command.reportLine took e))
    perform started next
  | .read p next => do perform started (next (← readFile p))
  | .write p t next => do perform started (next (← writeFile p t))
  | .makeParents p next => do perform started (next (← makeParentDirectories p))

def programNamed? (name : String) : Option Command.Program :=
  if name = "convert" then some .convert
  else if name = "addresses" then some .addresses
  else none

end Replay

def main (words : List String) : IO UInt32 := do
  match words with
  | [] => return 2
  | name :: rest =>
    match Replay.programNamed? name with
    | none => return 2
    | some program =>
      let started ← IO.monoNanosNow
      match ← Replay.perform started (program.script (rest.map String.toList)) with
      | .ok ending =>
        IO.print (String.ofList ending.printed)
        return UInt32.ofNat ending.code
      | .error _ => return 1
