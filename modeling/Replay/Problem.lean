/-
  Replay.Problem — why a run ends early.

  A problem shows as its outermost account alone, or with everything that led to it. A
  file that cannot be read or written is told with the purpose it had, if it had one.
-/

import Replay.Config
import Replay.Disk
import Replay.Json.Lexical

namespace Replay

open Text

/-- What a file was wanted for. -/
inductive Purpose where
  | readTrace (p : Path)
  | readTestFile (p : Path)
  | writeTestFile (p : Path)
  | readRecord (p : Path)
  | writeBook (p : Path)
  | readConfig (p : Path)
  deriving DecidableEq, Repr

def Purpose.message : Purpose → Text
  | readTrace p => cat ["failed to read trace ", p]
  | readTestFile p => cat ["failed to read test file ", p]
  | writeTestFile p => cat ["failed to write test file ", p]
  | readRecord p => cat ["failed to read broadcast ", p]
  | writeBook p => cat ["failed to write ", p]
  | readConfig p => cat ["failed to read config ", p]

inductive Problem where
  | io (purpose : Option Purpose) (fault : IoFault)
  | noInsertionPoint (strategy : TestFile.Strategy)
  | deployment (fault : Deploy.Fault)
  | record (path : Path) (fault : Json.Fault)
  | config (fault : Config.Fault)
  deriving DecidableEq, Repr

namespace Problem

def strategyName : TestFile.Strategy → Text
  | .literal => "Literal"
  | .structural => "Structural"

def jsonMessage : Json.Fault → Text
  | .ended => "the text ends too early"
  | .malformed => "the text is no JSON"
  | .mismatch m => m.message

def configMessage : Config.Fault → Text
  | .malformed => "the text is no TOML"
  | .mismatch m => m.message

/-- The outermost account. -/
def message : Problem → Text
  | io (some purpose) _ => purpose.message
  | io none fault => fault.message
  | noInsertionPoint s => cat ["insertion point not found (", strategyName s, " strategy)"]
  | deployment f => f.message
  | record p _ => cat ["invalid broadcast ", p]
  | config f => configMessage f

/-- The outermost account and its cause. -/
def full : Problem → Text
  | io (some purpose) fault => cat [purpose.message, ": ", fault.message]
  | record p f => cat ["invalid broadcast ", p, ": ", jsonMessage f]
  | p => p.message

end Problem
end Replay
