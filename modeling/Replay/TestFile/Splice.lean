/-
  Replay.TestFile.Splice — a new test function at the end of a test contract.

  A cut divides a source into a head, a gap and a tail: the head stays in front of the new
  function, the tail behind it, and the gap between them is dropped. The literal strategy
  cuts at the last brace, line feed, brace; the structural one at the brace that closes
  the last container, with the white space before it as the gap. In both, the tail starts
  with the brace that closes the contract.

  Proved here: `Cut.find_append` (head, gap and tail are the source).
-/

import Replay.TestFile.Braces
import Replay.TestFile.Names
import Replay.Trace.Pipeline

namespace Replay.TestFile

open Text

inductive Strategy where
  | literal
  | structural
  deriving DecidableEq, Repr

structure Cut where
  head : Text
  gap : Text
  tail : Text
  deriving DecidableEq, Repr

namespace Cut

/-- Bytes before the new function. -/
def headEnd (c : Cut) : Nat := bytes c.head
/-- Bytes of the old source that come before its tail. -/
def tailStart (c : Cut) : Nat := bytes c.head + bytes c.gap

/-- The end of a contract whose last member closes on the line before. -/
def closing : Text := ['}', '\n', '}']

def literal (source : Text) : Option Cut :=
  (cutLast closing source).map fun (a, b) => ⟨a ++ ['}'], ['\n'], b.drop 2⟩

def structural (source : Text) : Option Cut :=
  (lastClose source).map fun (a, b) => ⟨trimEnd a, a.drop (trimEnd a).length, b⟩

def find : Strategy → Text → Option Cut
  | .literal => literal
  | .structural => structural

end Cut

/-! ## The function -/

def function (name body : Text) : Text :=
  "    function ".toList ++ name ++ "() public \x7b\n".toList ++ body ++ "    \x7d\n".toList

structure Spliced where
  source : Text
  name : Text
  deriving DecidableEq, Repr

def Cut.fill (c : Cut) (function : Text) : Text := c.head ++ '\n' :: '\n' :: function ++ c.tail

def splice (stem : Text) (strategy : Strategy) (source : Text) (block : Block) : Option Spliced :=
  (Cut.find strategy source).map fun cut =>
    let name := nextName stem source
    ⟨cut.fill (function name block.body), name⟩

def spliceReport (stem : Text) (strategy : Strategy) (source : Text) : List Event :=
  match Cut.find strategy source with
  | none => []
  | some cut =>
    nameReport stem source ++ [.inserting (nextName stem source) cut.headEnd cut.tailStart]

/-! ## Nothing is lost -/

theorem cutLast_starts {mark s a b : Text} (h : cutLast mark s = some (a, b)) :
    ∃ r, b = mark ++ r := by
  induction s generalizing a b with
  | nil => simp [cutLast] at h
  | cons c r ih =>
    simp only [cutLast] at h
    split at h
    · next a' b' hc =>
      simp only [Option.some.injEq, Prod.mk.injEq] at h
      obtain ⟨rfl, rfl⟩ := h
      exact ih hc
    · split at h
      · next hp =>
        simp only [Option.some.injEq, Prod.mk.injEq] at h
        obtain ⟨rfl, rfl⟩ := h
        obtain ⟨t, ht⟩ := List.isPrefixOf_iff_prefix.1 hp
        exact ⟨t, ht.symm⟩
      · simp at h

theorem trimEnd_append (s : Text) : ∃ t, s = trimEnd s ++ t ∧ ∀ c ∈ t, isSpace c = true := by
  refine ⟨(s.reverse.takeWhile isSpace).reverse, ?_, ?_⟩
  · rw [trimEnd, dropEndWhile, ← List.reverse_append, List.takeWhile_append_dropWhile,
      List.reverse_reverse]
  · intro c hc
    exact List.all_eq_true.1 List.all_takeWhile c (List.mem_reverse.1 hc)

theorem trimEnd_append_drop (s : Text) : trimEnd s ++ s.drop (trimEnd s).length = s := by
  obtain ⟨t, ht, -⟩ := trimEnd_append s
  generalize trimEnd s = u at ht
  subst ht
  simp

theorem Cut.find_append {strategy : Strategy} {source : Text} {c : Cut}
    (h : Cut.find strategy source = some c) : c.head ++ c.gap ++ c.tail = source := by
  cases strategy with
  | literal =>
    simp only [find, literal, Option.map_eq_some_iff] at h
    obtain ⟨⟨a, b⟩, hc, rfl⟩ := h
    obtain ⟨r, rfl⟩ := cutLast_starts hc
    rw [← cutLast_append hc]
    simp [closing]
  | structural =>
    simp only [find, structural, Option.map_eq_some_iff] at h
    obtain ⟨⟨a, b⟩, hc, rfl⟩ := h
    rw [← lastClose_append hc, trimEnd_append_drop]

end Replay.TestFile
