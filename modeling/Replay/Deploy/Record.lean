/-
  Replay.Deploy.Record — what a deployment script left behind.

  A record lists the transactions of one run. The ones that create a contract are the
  deployments: each has a name and an address. A contract of the kind that is renamed goes
  by one of its constructor arguments instead, so that several instances can stand side by
  side.
-/

import Replay.Json.Value
import Replay.Json.Printer
import Replay.Path

namespace Replay.Deploy

open Text

structure Transaction where
  kind : Text
  name : Option Text
  address : Option Text
  arguments : Option (List Json.Value)

structure Record where
  transactions : List Transaction

/-- Deployments of `contract` go by their constructor argument at `index`. -/
structure Rename where
  contract : Text
  index : Nat
  deriving DecidableEq, Repr

inductive Fault where
  | unnamed
  | noArgument (contract : Text) (index : Nat)
  | noAddress (name : Text)
  deriving DecidableEq, Repr

def Fault.message : Fault → Text
  | unnamed => "CREATE transaction without contractName"
  | noArgument c i => cat [c, " deployment without constructor argument ", decimal i]
  | noAddress n => cat ["CREATE transaction of ", n, " without contractAddress"]

structure Deployment where
  name : Text
  address : Text
  deriving DecidableEq, Repr

def creation : Text := ['C', 'R', 'E', 'A', 'T', 'E']

def Transaction.isCreation (t : Transaction) : Bool := t.kind = creation

def Record.creations (r : Record) : List Transaction := r.transactions.filter Transaction.isCreation

/-- The name a deployment goes by. -/
def Transaction.logicalName (rename : Rename) (t : Transaction) : Except Fault Text :=
  match t.name with
  | none => .error .unnamed
  | some contract =>
    if contract = rename.contract then
      match (t.arguments.getD [])[rename.index]? with
      | some v => .ok (Json.plainText v)
      | none => .error (.noArgument contract rename.index)
    else .ok contract

def Transaction.deployment (rename : Rename) (t : Transaction) : Except Fault Deployment :=
  match t.logicalName rename with
  | .error f => .error f
  | .ok name =>
    match t.address with
    | none => .error (.noAddress name)
    | some address => .ok ⟨name, address⟩

/-- The deployments up to the first transaction that is none, and what is wrong with that one. -/
def deploymentsOf (rename : Rename) : List Transaction → List Deployment × Option Fault
  | [] => ([], none)
  | t :: ts =>
    match t.deployment rename with
    | .error f => ([], some f)
    | .ok d => (d :: (deploymentsOf rename ts).1, (deploymentsOf rename ts).2)

def Record.deployments (rename : Rename) (r : Record) : List Deployment × Option Fault :=
  deploymentsOf rename r.creations

/-! ## Where records are kept -/

/-- The record of `function` in `script` on a chain. -/
def recordPath (directory script : Text) (chain : Nat) (function : Text) : Path :=
  ((Path.join directory script).join (decimal chain)).join (function ++ "-latest.json".toList)

end Replay.Deploy
