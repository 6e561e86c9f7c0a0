/-
  Replay.Trace.Pass — a rewriting pass over a trace.

  A pass is a name and a rule. The rule is swept over every line of the text on its own:
  at the start of a line it sees no character before it. Whatever it finds is replaced,
  the rest of the line is kept, and the lines are put together again. A pass reports every
  match, how many lines hold one, and its whole output.

  Proved here: `apply_append_newline` (a pass works line by line).
-/

import Replay.Text.Sweep
import Replay.Event

namespace Replay

open Text

structure Pass where
  name : Text
  /-- Finds a match and says what stands in its place. -/
  rule : Rule Text

namespace Pass

/-- What a piece becomes. -/
def outcome : Piece Text → Text
  | .kept c => [c]
  | .found _ made => made

def found? : Piece Text → Option Text
  | .kept _ => none
  | .found t _ => some t

def rewriteLine (p : Pass) (line : Text) : Text := (sweep p.rule line).flatMap outcome

/-- The matches of one line. -/
def matchesIn (p : Pass) (line : Text) : List Text := (sweep p.rule line).filterMap found?

def apply (p : Pass) (s : Text) : Text := unlines ((lines s).map p.rewriteLine)

def matchesOf (p : Pass) (s : Text) : List Text := (lines s).flatMap p.matchesIn

/-- How many lines hold a match. -/
def matchedLines (p : Pass) (s : Text) : Nat :=
  (lines s).countP fun line => !(p.matchesIn line).isEmpty

def report (p : Pass) (s : Text) : List Event :=
  match p.matchesOf s with
  | [] => [.untouched p.name]
  | ms =>
    ms.map (.rewrote p.name) ++
      [.passCounts p.name (p.matchedLines s) (lineCount s - p.matchedLines s),
       .passOutput p.name (p.apply s)]

/-! ## Line by line -/

theorem unlines_append {a b : List Text} (ha : a ≠ []) (hb : b ≠ []) :
    unlines (a ++ b) = unlines a ++ '\n' :: unlines b := by
  induction a with
  | nil => exact absurd rfl ha
  | cons l ls ih =>
    cases ls with
    | nil => simp [unlines_cons_of_ne_nil l hb, unlines]
    | cons m ms =>
      have : m :: ms ++ b ≠ [] := by simp
      rw [List.cons_append, unlines_cons_of_ne_nil l this, ih (by simp),
        unlines_cons_of_ne_nil l (by simp)]
      simp

theorem apply_append_newline (p : Pass) (a b : Text) :
    p.apply (a ++ '\n' :: b) = p.apply a ++ '\n' :: p.apply b := by
  simp only [apply, lines_append_newline, List.map_append]
  exact unlines_append (by simp [lines_ne_nil]) (by simp [lines_ne_nil])

end Pass
end Replay
