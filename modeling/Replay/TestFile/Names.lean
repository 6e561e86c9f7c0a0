/-
  Replay.TestFile.Names — the functions a test file declares, and the next free test name.

  Tests are numbered. The next number is how often the keyword stands in the file, also in
  comments and inside longer words, and from there the first that gives no declared name.
  Declarations are swept from left to right: the keyword at the start of a word, white
  space, a name. Since no text ends the way the keyword starts, places of the keyword
  never overlap.
-/

import Replay.Text.Sweep
import Replay.Text.Word
import Replay.Event

namespace Replay.TestFile

open Text

def keyword : Text := "function".toList

def keywordCount : Text → Nat
  | [] => 0
  | c :: r => (if keyword.isPrefixOf (c :: r) then 1 else 0) + keywordCount r

def isNameStart (c : Char) : Bool := isLetter c || c = '_' || c = '$'
def isNameChar (c : Char) : Bool := isNameStart c || isAsciiDigit c

/-- A name that can be declared. -/
def isName : Text → Bool
  | [] => false
  | c :: r => isNameStart c && r.all isNameChar

def declaration : Rule Text := fun before s => do
  guard (startsWord before)
  let rest ← after? keyword s
  let gap := rest.takeWhile isSpace
  let name := (rest.dropWhile isSpace).takeWhile isNameChar
  guard (!gap.isEmpty && isName name)
  return ⟨keyword.length + gap.length + name.length - 1, name⟩

def declared (source : Text) : List Text := finds declaration source

/-! ## The next name -/

def numbered (stem : Text) (k : Nat) : Text := stem ++ decimal k

/-- The first number from `k` on that is free, among `fuel` and the one after them. -/
def firstFree (taken : List Text) (stem : Text) : Nat → Nat → Nat
  | 0, k => k
  | fuel + 1, k => if taken.contains (numbered stem k) then firstFree taken stem fuel (k + 1) else k

def nextIndex (stem source : Text) : Nat :=
  let taken := declared source
  firstFree taken stem taken.length (keywordCount source)

def nextName (stem source : Text) : Text := numbered stem (nextIndex stem source)

def nameReport (stem source : Text) : List Event :=
  let k := keywordCount source
  let i := nextIndex stem source
  if i = k then [] else [.nameTaken stem k i]

end Replay.TestFile
