/-
  Replay.Convert — a trace becomes a test.

  The trace is read and turned into statements; the test file is read, given a new
  function with them, and written back. The file is written last and only once there is
  something to write, so a run that fails has written nothing.
-/

import Replay.Script

namespace Replay

open Text TestFile

/-- Add a test function around a block to the file at a path; gives the function's name. -/
def spliceFile (stem : Text) (strategy : Strategy) (path : Path) (block : Block) : Script Text := do
  let source ← Script.readText (some (.readTestFile path)) path
  Script.notes (spliceReport stem strategy source)
  match splice stem strategy source block with
  | none => .fail (.noInsertionPoint strategy)
  | some spliced => do
    Script.notes [.spliced spliced.source]
    Script.writeText (some (.writeTestFile path)) path spliced.source
    Script.notes [.added spliced.name path]
    return spliced.name

/-- Where the test file of a folder is, and the name of its new function. -/
def convert (c : TraceConfig) (folder : Path) : Script (Path × Text) := do
  Script.notes [.converting c.traceFile]
  let trace ← Script.readText (some (.readTrace c.traceFile)) c.traceFile
  let block := Trace.transform trace
  Script.notes (Trace.report trace ++ [.statements block.text])
  let path := Path.join folder c.testFile
  let name ← spliceFile c.stem c.strategy path block
  return (path, name)

end Replay
