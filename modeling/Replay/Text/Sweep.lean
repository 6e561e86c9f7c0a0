/-
  Replay.Text.Sweep — matches of a rule taken from left to right, none overlapping
  another.

  A rule is asked at every place of a text, from the left, with the character just before
  that place and everything from it on. Where it finds something, the sweep takes the
  whole match and goes on behind it; elsewhere it keeps one character. A match covers at
  least the character at its place, so a sweep always ends.

  Proved here: `source_sweep` (the pieces of a sweep are the text, in order).
-/

import Replay.Text.Basic

namespace Replay.Text

/-- A match covers the character at its place and `more` further ones. -/
structure Find (α : Type) where
  more : Nat
  value : α

abbrev Rule (α : Type) := Option Char → Text → Option (Find α)

inductive Piece (α : Type) where
  | kept (c : Char)
  | found (text : Text) (value : α)

/-- `skip` characters still belong to the match that was taken last. -/
def sweepFrom {α : Type} (rule : Rule α) : Option Char → Nat → Text → List (Piece α)
  | _, _, [] => []
  | _, skip + 1, c :: r => sweepFrom rule (some c) skip r
  | before, 0, c :: r =>
    match rule before (c :: r) with
    | some f => .found ((c :: r).take (f.more + 1)) f.value :: sweepFrom rule (some c) f.more r
    | none => .kept c :: sweepFrom rule (some c) 0 r

def sweep {α : Type} (rule : Rule α) (s : Text) : List (Piece α) := sweepFrom rule none 0 s

def Piece.source {α : Type} : Piece α → Text
  | .kept c => [c]
  | .found t _ => t

def Piece.value? {α : Type} : Piece α → Option α
  | .kept _ => none
  | .found _ a => some a

/-- What a sweep found, in order. -/
def finds {α : Type} (rule : Rule α) (s : Text) : List α := (sweep rule s).filterMap Piece.value?

/-! ## Nothing is lost -/

theorem source_sweepFrom {α : Type} (rule : Rule α) (before : Option Char) (skip : Nat) (s : Text) :
    (sweepFrom rule before skip s).flatMap Piece.source = s.drop skip := by
  induction s generalizing before skip with
  | nil => simp [sweepFrom]
  | cons c r ih =>
    cases skip with
    | succ k => simp [sweepFrom, ih]
    | zero =>
      simp only [sweepFrom]
      split
      · next f _ => simp [Piece.source, ih]
      · simp [Piece.source, ih]

theorem source_sweep {α : Type} (rule : Rule α) (s : Text) :
    (sweep rule s).flatMap Piece.source = s := by
  simp [sweep, source_sweepFrom]

end Replay.Text
