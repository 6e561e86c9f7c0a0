/-
  Replay.Command.Program — the two programs.

  `convert` adds a trace to a test file as a test; `addresses` collects the addresses of a
  chain. What the command line gives stands above the configuration, and that above the
  defaults. A run ends with 0, with 1 after a reported problem, with 2 if the command line
  makes no sense, and with 101 if the configuration cannot be had.
-/

import Replay.Convert
import Replay.Deploy.Build
import Replay.Command.Line

namespace Replay.Command

open Text TestFile

inductive Program where
  | convert
  | addresses
  deriving DecidableEq, Repr

def anything : Text → Bool := fun _ => true

def strategyOf? (s : Text) : Option Strategy :=
  if s = Config.literalName then some .literal
  else if s = Config.structuralName then some .structural
  else none

def configSwitch : Switch := ⟨"config".toList, 'c', some anything⟩
def traceSwitch : Switch := ⟨"trace".toList, 't', some anything⟩
def strategySwitch : Switch := ⟨"strategy".toList, 's', some fun s => (strategyOf? s).isSome⟩
def outputSwitch : Switch := ⟨"output".toList, 'o', some anything⟩
def verboseSwitch : Switch := ⟨"verbose".toList, 'v', none⟩

def Program.grammar : Program → Grammar
  | .convert => ⟨[configSwitch, traceSwitch, strategySwitch, verboseSwitch], anything⟩
  | .addresses => ⟨[configSwitch, outputSwitch, verboseSwitch], fun s => (word64? s).isSome⟩

/-- How a run ends, and what it prints that is no report. -/
structure Ending where
  code : Nat
  printed : Text
  deriving DecidableEq, Repr

def versionText : Text := "crytic2foundry 0.1.0\n".toList

def Program.helpText : Program → Text
  | .convert => "[-c CONFIG] [-t TRACE] [-s literal|structural] [-v] [FOLDER]\n".toList
  | .addresses => "[-c CONFIG] [-o OUTPUT] [-v] [CHAIN_ID]\n".toList

def Program.stopped (p : Program) : Stop → Ending
  | .usage => ⟨2, []⟩
  | .version => ⟨0, versionText⟩
  | .help => ⟨0, p.helpText⟩

/-! ## Configuration -/

/-- The configuration at a path, or the defaults. -/
def loadConfig : Option Path → Script Config
  | none => .done {}
  | some p => do
    let content ← Script.readText (some (.readConfig p)) p
    Script.ofExcept .config (Config.parse content)

/-! ## Runs -/

/-- Report how it went. -/
def concluded {α : Type} (s : Script α) (success : α → Event) : Script Ending := do
  match ← s.attempt with
  | .ok a =>
    Script.notes [success a]
    return ⟨0, []⟩
  | .error p =>
    Script.notes [.failed p.full]
    return ⟨1, []⟩

def runConvert (given : Given) (c : TraceConfig) : Script Ending :=
  let c := { c with
    traceFile := (given.value? traceSwitch.name).getD c.traceFile
    strategy := ((given.value? strategySwitch.name).bind strategyOf?).getD c.strategy }
  concluded (convert c (given.operand.getD c.folder)) fun (path, name) => .converted path name

def runAddresses (given : Given) (c : AddressConfig) : Script Ending := do
  let asked := given.operand.bind word64?
  Script.notes (if asked.isNone then [.chainDefaulted c.chain] else [])
  let output := (given.value? outputSwitch.name).getD c.output
  let collect : Script Nat := do
    let b ← Deploy.build c (asked.getD c.chain)
    b.write output
    return b.size
  concluded collect fun n => .bookWritten output n

def Program.script (p : Program) (words : List Text) : Script Ending :=
  match read p.grammar words with
  | .error stop => .done (p.stopped stop)
  | .ok given => do
    match ← (loadConfig (given.value? configSwitch.name)).attempt with
    | .error _ => return ⟨101, []⟩
    | .ok c =>
      match p with
      | .convert => runConvert given c.trace
      | .addresses => runAddresses given c.addresses

/-! ## Report lines -/

/-- A report as a line: its level in five columns, then its wording. -/
def reportLine (took : Text) (e : Event) : Text :=
  List.replicate (5 - e.level.label.length) ' ' ++ e.level.label ++ ' ' :: e.message took ++ ['\n']

end Replay.Command
