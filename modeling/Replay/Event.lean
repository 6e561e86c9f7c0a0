/-
  Replay.Event — what a run reports while it works.

  Every report is a value with the facts it carries; its level and its wording are read
  off it. A report shows as one line unless the text it carries has several. The time a
  run took is not known to the model, so the wording of the two closing reports takes it.
-/

import Replay.Text.Quoted

namespace Replay

inductive Level where
  | debug
  | info
  | warn
  | error
  deriving DecidableEq, Repr

inductive Event where
  /-- A pass found nothing to rewrite. -/
  | untouched (pass : Text)
  | rewrote (pass found : Text)
  | passCounts (pass : Text) (rewritten kept : Nat)
  | passOutput (pass output : Text)
  /-- The counted name was declared already and a later one is used. -/
  | nameTaken (stem : Text) (counted used : Nat)
  | inserting (name : Text) (headEnd tailStart : Nat)
  | spliced (source : Text)
  | added (name path : Text)
  | converting (trace : Text)
  | statements (block : Text)
  | badAddress (address : Text)
  | deployed (name address : Text)
  | redeployed (name previous : Text)
  | loading (path : Text)
  | collected (size chain : Nat)
  | chainDefaulted (chain : Nat)
  | converted (path name : Text)
  | bookWritten (path : Text) (size : Nat)
  | failed (problem : Text)
  deriving DecidableEq, Repr

def Level.label : Level → Text
  | .debug => "DEBUG".toList
  | .info => "INFO".toList
  | .warn => "WARN".toList
  | .error => "ERROR".toList

namespace Text

/-- One text from its parts. -/
def cat (parts : List Text) : Text := parts.flatten

instance : Coe String Text := ⟨String.toList⟩

end Text

namespace Event

open Text

def level : Event → Level
  | untouched _ | rewrote _ _ | passOutput _ _ | inserting _ _ _ | spliced _ => .debug
  | deployed _ _ | redeployed _ _ | loading _ => .debug
  | passCounts _ _ _ | added _ _ | converting _ | statements _ | collected _ _ => .info
  | converted _ _ | bookWritten _ _ => .info
  | nameTaken _ _ _ | chainDefaulted _ => .warn
  | badAddress _ | failed _ => .error

def message (took : Text) : Event → Text
  | untouched p => cat ["[", p, "] no match, text unchanged"]
  | rewrote p found => cat ["[", p, "] rewrite: ", quoted found]
  | passCounts p n k =>
    cat ["[", p, "] ", decimal n, " lines rewritten, ", decimal k, " lines passed through"]
  | passOutput p out => cat ["[", p, "] output:\n", out]
  | nameTaken stem n k =>
    cat [stem, decimal n, " is already declared, using ", stem, decimal k]
  | inserting name a b =>
    cat ["insert ", name, " at InsertionPoint \x7b head_end: ", decimal a, ", tail_start: ",
      decimal b, " \x7d"]
  | spliced source => cat ["spliced test file:\n", source]
  | added name path => cat ["Added ", name, "() to ", path]
  | converting trace => cat ["🔥 Start converting: ", trace]
  | statements block => cat ["Generated statements:\n", block]
  | badAddress a => cat ["Invalid address: ", a]
  | deployed name address => cat [name, " => ", address]
  | redeployed name previous => cat [name, " redeployed, replacing ", previous]
  | loading path => cat ["Load broadcast from ", path]
  | collected n chain => cat ["Collected ", decimal n, " addresses on chain ", decimal chain]
  | chainDefaulted chain => cat ["Missing chain id parameter, using ", decimal chain]
  | converted path name => cat ["🎉 Done (", took, ")! Output: ", path, ", Function: ", name]
  | bookWritten path n => cat ["🎉 Done (", took, ")! Output: ", path, ", Contracts: ", decimal n]
  | failed problem => cat ["Error: ", problem]

end Event
end Replay
