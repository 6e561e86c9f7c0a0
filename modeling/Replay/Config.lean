/-
  Replay.Config — the settings of both programs.

  A configuration file is laid over the built-in defaults: a key that is given replaces
  one field, a given list of steps replaces all of them, and what nobody asks for is
  passed over. A structure may also be written as an array of its fields in order. The
  first thing of the wrong shape, in the order of the file, is the problem.
-/

import Replay.Toml.Reader
import Replay.TestFile.Splice
import Replay.Deploy.Record

namespace Replay

open Text TestFile

/-- A deployment script and the functions of it that were broadcast. -/
structure DeployStep where
  script : Text
  functions : List Text
  deriving DecidableEq, Repr

structure TraceConfig where
  traceFile : Text := "example.txt".toList
  /-- Inside the target folder. -/
  testFile : Text := "CryticToFoundry.t.sol".toList
  folder : Text := "ig".toList
  stem : Text := "test_".toList
  strategy : Strategy := .literal
  deriving DecidableEq, Repr

def defaultSteps : List DeployStep :=
  [⟨"01_CoreFoundations.s.sol".toList, ["run".toList]⟩,
   ⟨"02_Token.s.sol".toList, ["deployToken".toList]⟩,
   ⟨"03_Factory.s.sol".toList, ["createIGMarket".toList]⟩]

structure AddressConfig where
  broadcasts : Text := "broadcast".toList
  output : Text := "out/addresses.json".toList
  chain : Nat := 31337
  /-- Deployments of this contract go by a constructor argument. -/
  token : Text := "TestnetToken".toList
  tokenArgument : Nat := 1
  steps : List DeployStep := defaultSteps
  deriving DecidableEq, Repr

structure Config where
  trace : TraceConfig := {}
  addresses : AddressConfig := {}
  deriving DecidableEq, Repr

def AddressConfig.rename (c : AddressConfig) : Deploy.Rename := ⟨c.token, c.tokenArgument⟩

/-- The files to read, in order. -/
def AddressConfig.recordPaths (c : AddressConfig) (chain : Nat) : List Path :=
  c.steps.flatMap fun step =>
    step.functions.map fun function => Deploy.recordPath c.broadcasts step.script chain function

namespace Config

/-! ## Values -/

open Toml (Value Entries)

def found : Value → Found
  | .string s => .string s
  | .integer i => .integer i
  | .float x => .float (Number.Layout.plain.text x)
  | .boolean b => .boolean b
  | .datetime => .map
  | .array _ => .sequence
  | .table _ _ => .map
  | .tables _ => .sequence

def wrongType {α : Type} (v : Value) (expected : Text) : Except Mismatch α :=
  .error (.wrongType (found v) expected)

def readText : Value → Except Mismatch Text
  | .string s => .ok s
  | v => wrongType v "a string".toList

def readNatural (expected : Text) : Value → Except Mismatch Nat
  | .integer i => if i < 0 then .error (.wrongValue (.integer i) expected) else .ok i.toNat
  | v => wrongType v expected

/-- The items of a list, repeated tables included. -/
def readItems : Value → Except Mismatch (List Value)
  | .array vs => .ok vs
  | .tables ts => .ok (ts.map (.table .header))
  | v => wrongType v "a sequence".toList

/-- The fields of a structure with their names; a date has none that is asked for. -/
def readFields (structName : Text) (names : List Text) : Value → Except Mismatch Entries
  | .table _ es => .ok es
  | .datetime => .ok []
  | .array vs => .ok (names.zip vs)
  | .tables ts => .ok (names.zip (ts.map (.table .header)))
  | v => wrongType v ("struct ".toList ++ structName)

def literalName : Text := "literal".toList
def structuralName : Text := "structural".toList

def strategyNamed (name : Text) : Except Mismatch Strategy :=
  if name = literalName then .ok .literal
  else if name = structuralName then .ok .structural
  else .error (.unknownVariant name literalName structuralName)

/-- A variant is given by its name, or by a table with that name as its one key and no more. -/
def readStrategy : Value → Except Mismatch Strategy
  | .string s => strategyNamed s
  | .table _ [] => .error (.variantCount false)
  | .table _ [(name, v)] => do
    let s ← strategyNamed name
    match v with
    | .array [] | .tables [] | .table _ [] => return s
    | .array _ | .tables _ => throw (.variantNotEmpty "array".toList)
    | .table _ _ => throw (.variantNotEmpty "table".toList)
    | v => throw (.variantContent v.kind)
  | .table _ _ => .error (.variantCount true)
  | _ => .error .notVariant

/-! ## Structures -/

def scriptName : Text := "script".toList
def functionsName : Text := "functions".toList
def stepName : Text := "DeployStep".toList

structure StepDraft where
  script : Option Text := none
  functions : Option (List Text) := none

def takeStep (d : StepDraft) (field : Text × Value) : Except Mismatch StepDraft := do
  if field.1 = scriptName then return { d with script := ← readText field.2 }
  else if field.1 = functionsName then
    return { d with functions := ← (← readItems field.2).mapM readText }
  else return d

def readStep (v : Value) : Except Mismatch DeployStep := do
  let es ← readFields stepName [scriptName, functionsName] v
  let d ← es.foldlM takeStep {}
  let missing (given : Nat) (field : Text) : Mismatch :=
    match v with
    | .array _ | .tables _ => .wrongLength given stepName 2
    | _ => .missingField field
  match d.script, d.functions with
  | some script, some functions => return ⟨script, functions⟩
  | none, _ => throw (missing 0 scriptName)
  | some _, none => throw (missing 1 functionsName)

def traceNames : List Text :=
  ["trace_file", "test_file", "default_folder", "fn_prefix", "strategy"].map String.toList

def takeTrace (c : TraceConfig) (field : Text × Value) : Except Mismatch TraceConfig := do
  if field.1 = "trace_file".toList then return { c with traceFile := ← readText field.2 }
  else if field.1 = "test_file".toList then return { c with testFile := ← readText field.2 }
  else if field.1 = "default_folder".toList then return { c with folder := ← readText field.2 }
  else if field.1 = "fn_prefix".toList then return { c with stem := ← readText field.2 }
  else if field.1 = "strategy".toList then return { c with strategy := ← readStrategy field.2 }
  else return c

def readTrace (v : Value) : Except Mismatch TraceConfig := do
  (← readFields "Trace".toList traceNames v).foldlM takeTrace {}

def addressNames : List Text :=
  ["broadcast_dir", "output", "default_chain_id", "token_contract", "token_name_arg", "steps"].map
    String.toList

def takeAddresses (c : AddressConfig) (field : Text × Value) : Except Mismatch AddressConfig := do
  if field.1 = "broadcast_dir".toList then return { c with broadcasts := ← readText field.2 }
  else if field.1 = "output".toList then return { c with output := ← readText field.2 }
  else if field.1 = "default_chain_id".toList then
    return { c with chain := ← readNatural "u64".toList field.2 }
  else if field.1 = "token_contract".toList then return { c with token := ← readText field.2 }
  else if field.1 = "token_name_arg".toList then
    return { c with tokenArgument := ← readNatural "usize".toList field.2 }
  else if field.1 = "steps".toList then
    return { c with steps := ← (← readItems field.2).mapM readStep }
  else return c

def readAddresses (v : Value) : Except Mismatch AddressConfig := do
  (← readFields "Addresses".toList addressNames v).foldlM takeAddresses {}

def takeTable (c : Config) (field : Text × Value) : Except Mismatch Config := do
  if field.1 = "trace".toList then return { c with trace := ← readTrace field.2 }
  else if field.1 = "addresses".toList then return { c with addresses := ← readAddresses field.2 }
  else return c

/-- The defaults with a document laid over them. -/
def ofDocument (es : Entries) : Except Mismatch Config := es.foldlM takeTable {}

/-! ## From text -/

inductive Fault where
  | malformed
  | mismatch (m : Mismatch)
  deriving DecidableEq, Repr

def parse (s : Text) : Except Fault Config :=
  match Toml.parse s with
  | none => .error .malformed
  | some es => (ofDocument es).mapError .mismatch

end Config
end Replay
