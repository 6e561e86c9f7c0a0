/-
  Replay.Deploy.Build — the address book of a chain.

  Every record that the configuration names is read and entered, in order, before the next
  one is looked at. The book is written as a whole, and the directories above it are made
  if need be.
-/

import Replay.Script
import Replay.Deploy.Reader
import Replay.Deploy.Book

namespace Replay.Deploy

def readRecord (path : Path) : Script Record := do
  let content ← Script.readText (some (.readRecord path)) path
  Script.ofExcept (.record path) (Record.parse content)

def enter (rename : Rename) (b : Book) (r : Record) : Script Book := do
  Script.notes (b.extendReport rename r)
  match b.extend rename r with
  | (_, some f) => .fail (.deployment f)
  | (b, none) => return b

def enterPaths (rename : Rename) : Book → List Path → Script Book
  | b, [] => .done b
  | b, p :: ps => do
    Script.notes [.loading p]
    let r ← readRecord p
    let b ← enter rename b r
    enterPaths rename b ps

def build (c : AddressConfig) (chain : Nat) : Script Book := do
  let b ← enterPaths c.rename .empty (c.recordPaths chain)
  Script.notes [.collected b.size chain]
  return b

def Book.write (b : Book) (path : Path) : Script Unit := do
  Script.ensureParents path
  Script.writeText (some (.writeBook path)) path b.text

end Replay.Deploy
