/-
  Replay.TestFile.Braces — where the last container of a test file closes.

  A source is read one character at a time. A mode says what the character stands in:
  code, a comment up to the end of its line, a comment up to its closing mark, or a string
  in either quote. Two modes remember half a comment mark, and one the backslash in a
  string, which takes the character after it out of the reading. Only braces in code
  count.

  `lastClose` walks the braces with a depth. It fails when a brace closes nothing or when
  one stays open at the end, and otherwise cuts the source at the last brace that brought
  the depth back to zero.

  Proved here: `lastClose_append` (the cut loses nothing).
-/

import Replay.Text.Class

namespace Replay.TestFile

open Text

inductive Mode where
  | code
  /-- Code, just behind a slash. -/
  | slash
  | lineComment
  | blockComment
  /-- In a comment, just behind a star. -/
  | star
  | quote (mark : Char)
  /-- In a string, just behind a backslash. -/
  | escape (mark : Char)
  deriving DecidableEq, Repr

namespace Mode

/-- A brace read in this mode is a brace of the code. -/
def isCode : Mode → Bool
  | code | slash => true
  | _ => false

/-- Code that no comment mark is left half read in. -/
def plain (c : Char) : Mode :=
  if c = '/' then slash else if c = '"' || c = '\x27' then quote c else code

def next : Mode → Char → Mode
  | code, c => plain c
  | slash, c => if c = '/' then lineComment else if c = '*' then blockComment else plain c
  | lineComment, c => if c = '\n' then code else lineComment
  | blockComment, c => if c = '*' then star else blockComment
  | star, c => if c = '/' then code else if c = '*' then star else blockComment
  | quote m, c => if c = m then code else if c = '\\' then escape m else quote m
  | escape m, _ => quote m

end Mode

/-- The depth behind a character; `none` if it closes a brace that none opened. -/
def deeper (m : Mode) (depth : Nat) (c : Char) : Option Nat :=
  if m.isCode then
    if c = '{' then some (depth + 1)
    else if c = '}' then (if depth = 0 then none else some (depth - 1))
    else some depth
  else some depth

/-- A brace of the code that ends a container. -/
def ends (m : Mode) (depth : Nat) (c : Char) : Bool := m.isCode && c = '}' && depth = 1

/-- The source up to the last such brace and from it on; the outer option is the balance. -/
def lastCloseFrom : Mode → Nat → Text → Option (Option (Text × Text))
  | _, depth, [] => if depth = 0 then some none else none
  | m, depth, c :: r => do
    let depth' ← deeper m depth c
    match ← lastCloseFrom (m.next c) depth' r with
    | some (a, b) => return some (c :: a, b)
    | none => return if ends m depth c then some ([], c :: r) else none

def lastClose (source : Text) : Option (Text × Text) := (lastCloseFrom .code 0 source).join

/-! ## Nothing is lost -/

theorem lastCloseFrom_append {m : Mode} {depth : Nat} {s a b : Text}
    (h : lastCloseFrom m depth s = some (some (a, b))) : a ++ b = s := by
  induction s generalizing m depth a b with
  | nil => simp only [lastCloseFrom] at h; split at h <;> simp at h
  | cons c r ih =>
    simp only [lastCloseFrom, Option.bind_eq_bind, Option.bind_eq_some_iff] at h
    obtain ⟨d, -, o, ho, h⟩ := h
    cases o with
    | some p =>
      obtain ⟨a', b'⟩ := p
      simp only [Option.pure_def, Option.some.injEq, Prod.mk.injEq] at h
      obtain ⟨rfl, rfl⟩ := h
      simp [ih ho]
    | none =>
      simp only [Option.pure_def, Option.some.injEq] at h
      split at h
      · simp only [Option.some.injEq, Prod.mk.injEq] at h
        obtain ⟨rfl, rfl⟩ := h
        rfl
      · simp at h

theorem lastClose_append {s a b : Text} (h : lastClose s = some (a, b)) : a ++ b = s := by
  unfold lastClose at h
  cases h' : lastCloseFrom .code 0 s with
  | none => simp [h'] at h
  | some o =>
    cases o with
    | none => simp [h'] at h
    | some p =>
      obtain ⟨rfl⟩ : p = (a, b) := by simpa [h'] using h
      exact lastCloseFrom_append h'

end Replay.TestFile
