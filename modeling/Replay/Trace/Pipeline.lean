/-
  Replay.Trace.Pipeline — from a trace to a block of statements.

  The six passes run in one order, each on the output of the one before. What comes out is
  a block: statements at the depth of a test function's body, one per line.
-/

import Replay.Trace.Rules

namespace Replay

open Text

namespace Pass

def waits : Pass := ⟨"marker strip".toList, Trace.waits⟩
def delays : Pass := ⟨"annotation reorder".toList, Trace.delays⟩
def warps : Pass := ⟨"delay materialize".toList, Trace.warps⟩
def ends : Pass := ⟨"statement terminate".toList, Trace.ends⟩
def addresses : Pass := ⟨"address typing".toList, Trace.addresses⟩
def depths : Pass := ⟨"indent renormalize".toList, Trace.depths⟩

end Pass

structure Block where
  text : Text
  deriving DecidableEq, Repr

namespace Block

/-- Nothing but white space. -/
def isEmpty (b : Block) : Bool := b.text.all isSpace

/-- The block as the inside of a function: its last statement ends with a line feed. -/
def body (b : Block) : Text :=
  if b.text = [] ∨ b.text.getLast? = some '\n' then b.text else b.text ++ ['\n']

end Block

namespace Trace

def pipeline : List Pass :=
  [.waits, .delays, .warps, .ends, .addresses, .depths]

/-- The text after each pass. -/
def stagesOf : List Pass → Text → List Text
  | [], _ => []
  | p :: ps, s => p.apply s :: stagesOf ps (p.apply s)

def stages (trace : Text) : List Text := stagesOf pipeline trace

def transform (trace : Text) : Block := ⟨pipeline.foldl (fun s p => p.apply s) trace⟩

def reportOf : List Pass → Text → List Event
  | [], _ => []
  | p :: ps, s => p.report s ++ reportOf ps (p.apply s)

def report (trace : Text) : List Event := reportOf pipeline trace

end Trace
end Replay
