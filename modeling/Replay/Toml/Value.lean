/-
  Replay.Toml.Value — TOML documents as trees.

  Tables keep their entries in the order in which they were given. How a table came about
  decides what may be added to it later, so it is kept with it.
-/

import Replay.Mismatch

namespace Replay.Toml

/-- How a table came about. -/
inductive Form where
  /-- The root, or under a header of its own. -/
  | header
  /-- On the way to a table under a header. -/
  | implied
  /-- On the way of a dotted key. -/
  | dotted
  | inline
  deriving DecidableEq, Repr

inductive Value where
  | string (s : Text)
  | integer (i : Int)
  | float (x : Float)
  | boolean (b : Bool)
  | datetime
  | array (items : List Value)
  | table (form : Form) (entries : List (Text × Value))
  /-- Tables under repeated headers. -/
  | tables (items : List (List (Text × Value)))

abbrev Entries := List (Text × Value)

/-- What a value is called. -/
def Value.kind : Value → Text
  | .string _ => "string".toList
  | .integer _ => "integer".toList
  | .float _ => "float".toList
  | .boolean _ => "boolean".toList
  | .datetime => "datetime".toList
  | .array _ => "array".toList
  | .table .inline _ => "inline table".toList
  | .table _ _ => "table".toList
  | .tables _ => "array of tables".toList

def lookup (key : Text) : Entries → Option Value
  | [] => none
  | (k, v) :: es => if k = key then some v else lookup key es

def erase (key : Text) (es : Entries) : Entries := es.filter (·.1 ≠ key)

end Replay.Toml
