/-
  Replay.Command.Line — what the words of a command line mean.

  A program knows switches, each by a letter and a name, with a value or without, and
  takes one further word. A value stands in the same word, with an equals sign or directly
  behind the letter, or is the next word, which then must not look like a switch. Letters
  without values may share a word. Two dashes end the switches. A switch is given once.
  The words are read from the left, and the first mistake, or the first wish for the
  version or for help, decides.
-/

import Replay.Text.Class

namespace Replay.Command

open Text

structure Switch where
  name : Text
  letter : Char
  /-- Which values it takes; `none` if it takes no value. -/
  accepts : Option (Text → Bool)

structure Grammar where
  switches : List Switch
  /-- Which further word it takes. -/
  operand : Text → Bool

inductive Stop where
  | usage
  | version
  | help
  deriving DecidableEq, Repr

structure Given where
  /-- The switches by name, each with its value. -/
  values : List (Text × Text)
  operand : Option Text
  deriving DecidableEq, Repr

namespace Given

def value? (g : Given) (name : Text) : Option Text := (g.values.find? (·.1 = name)).map (·.2)

def set (g : Given) (s : Switch) (value : Text) : Except Stop Given :=
  if (g.value? s.name).isSome then .error .usage
  else if (s.accepts.map (· value)).getD true then
    .ok { g with values := g.values ++ [(s.name, value)] }
  else .error .usage

def setOperand (grammar : Grammar) (g : Given) (word : Text) : Except Stop Given :=
  if g.operand.isSome || !grammar.operand word then .error .usage
  else .ok { g with operand := some word }

end Given

/-- A word that starts with a dash and has something behind it. -/
def looksLikeSwitch : Text → Bool
  | '-' :: _ :: _ => true
  | _ => false

/-- The value that a word has behind its letter. -/
def attached : Text → Text
  | '=' :: r => r
  | r => r

/-- Letters that share a word; gives the switch that waits for its value. -/
def letters (grammar : Grammar) (g : Given) : Text → Except Stop (Given × Option Switch)
  | [] => .ok (g, none)
  | c :: r =>
    if c = 'V' then .error .version
    else if c = 'h' then .error .help
    else
      match grammar.switches.find? (·.letter = c) with
      | none => .error .usage
      | some s =>
        if s.accepts.isNone then do letters grammar (← g.set s []) r
        else if r.isEmpty then .ok (g, some s)
        else do return (← g.set s (attached r), none)

/-- A name behind two dashes, and what its word has behind an equals sign. -/
def named (grammar : Grammar) (g : Given) (word : Text) : Except Stop (Given × Option Switch) :=
  let name := word.takeWhile (· ≠ '=')
  let rest := word.dropWhile (· ≠ '=')
  if rest.isEmpty && name = "version".toList then .error .version
  else if rest.isEmpty && name = "help".toList then .error .help
  else
    match grammar.switches.find? (·.name = name) with
    | none => .error .usage
    | some s =>
      match s.accepts.isSome, rest with
      | false, [] => do return (← g.set s [], none)
      | false, _ :: _ => .error .usage
      | true, [] => .ok (g, some s)
      | true, _ :: value => do return (← g.set s value, none)

/-- `waiting` is the switch whose value comes next; `plain` says that no switches follow. -/
def readFrom (grammar : Grammar) (waiting : Option Switch) (plain : Bool) (g : Given) :
    List Text → Except Stop Given
  | [] => if waiting.isSome then .error .usage else .ok g
  | word :: words =>
    match waiting with
    | some s =>
      if looksLikeSwitch word then .error .usage
      else do readFrom grammar none plain (← g.set s word) words
    | none =>
      if plain then do readFrom grammar none true (← g.setOperand grammar word) words
      else
        match word with
        | ['-', '-'] => readFrom grammar none true g words
        | '-' :: '-' :: rest => do
          let (g, waiting) ← named grammar g rest
          readFrom grammar waiting false g words
        | '-' :: c :: rest => do
          let (g, waiting) ← letters grammar g (c :: rest)
          readFrom grammar waiting false g words
        | word => do readFrom grammar none false (← g.setOperand grammar word) words

def read (grammar : Grammar) (words : List Text) : Except Stop Given :=
  readFrom grammar none false ⟨[], none⟩ words

/-! ## Values -/

/-- A whole number of sixty-four bits; a plus sign and leading zeros are fine. -/
def word64? (s : Text) : Option Nat :=
  let digits := match s with
    | '+' :: r => r
    | s => s
  if digits.isEmpty || !digits.all isAsciiDigit then none
  else
    let n := digits.foldl (fun n c => n * 10 + (c.toNat - 48)) 0
    if n < 0x10000000000000000 then some n else none

end Replay.Command
