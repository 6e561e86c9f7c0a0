/-
  Replay.Path — paths as they are written, and how they are joined.

  A path is kept as it was written. Joining puts one slash between the parts if there is
  none, and an absolute part replaces everything before it. Nothing is normalised. Two
  paths are the same if they start alike and have the same names along them, however many
  slashes and dots stand between the names.
-/

import Replay.Text.Class

namespace Replay

abbrev Path := Text

namespace Path

def isAbsolute (p : Path) : Bool := p.head? = some '/'

def join (base part : Path) : Path :=
  if isAbsolute part then part
  else if base = [] ∨ base.getLast? = some '/' then base ++ part
  else base ++ '/' :: part

/-! ## Names along a path -/

/-- The pieces between slashes. -/
def pieces : Path → List Text
  | [] => [[]]
  | c :: r => if c = '/' then [] :: pieces r else Text.consFirst c (pieces r)

def isDot (s : Text) : Bool := s = ['.']
def isDotDot (s : Text) : Bool := s = ['.', '.']

/-- The names to follow: empty pieces and single dots lead nowhere. -/
def names (p : Path) : List Text := (pieces p).filter fun s => s ≠ [] && !isDot s

/-! ## The same path -/

/-- Whether a relative path begins with a dot of its own, the only one that counts. -/
def startsHere (p : Path) : Bool := (pieces p).head? = some ['.']

/-- What paths are compared by. -/
structure Components where
  absolute : Bool
  here : Bool
  names : List Text
  deriving DecidableEq, Repr

def components (p : Path) : Components := ⟨isAbsolute p, startsHere p, names p⟩

def Same (p q : Path) : Prop := components p = components q

instance (p q : Path) : Decidable (Same p q) := inferInstanceAs (Decidable (components p = components q))

end Path
end Replay
