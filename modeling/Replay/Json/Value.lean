/-
  Replay.Json.Value — JSON values.

  Whole numbers that fit a machine word stay whole; every other number is a float. An
  object holds its members in the order of the text. Its sorted form orders them by key
  and keeps the last value of a key given twice; it is what two objects have in common
  that mean the same.
-/

import Replay.Text.Basic

namespace Replay.Json

inductive Number where
  | integer (i : Int)
  | float (x : Float)

inductive Value where
  | null
  | bool (b : Bool)
  | number (n : Number)
  | string (s : Text)
  | array (items : List Value)
  | object (members : List (Text × Value))

/-- By code point, a start before what it starts. -/
def keyBefore : Text → Text → Bool
  | [], [] => false
  | [], _ :: _ => true
  | _ :: _, [] => false
  | c :: a, d :: b => if c = d then keyBefore a b else c.toNat < d.toNat

def insert (key : Text) (v : Value) : List (Text × Value) → List (Text × Value)
  | [] => [(key, v)]
  | (k, w) :: ms =>
    if k = key then (key, v) :: ms
    else if keyBefore key k then (key, v) :: (k, w) :: ms
    else (k, w) :: insert key v ms

/-- Sorted by key, the last value of each. -/
def sortMembers (ms : List (Text × Value)) : List (Text × Value) :=
  ms.foldl (fun acc m => insert m.1 m.2 acc) []

mutual

/-- The value with the members of every object sorted. -/
def Value.sorted : Value → Value
  | .array items => .array (sortedItems items)
  | .object ms => .object (sortMembers (sortedMembers ms))
  | v => v

def sortedItems : List Value → List Value
  | [] => []
  | v :: vs => v.sorted :: sortedItems vs

def sortedMembers : List (Text × Value) → List (Text × Value)
  | [] => []
  | (k, v) :: ms => (k, v.sorted) :: sortedMembers ms

end

end Replay.Json
