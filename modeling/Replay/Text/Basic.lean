/-
  Replay.Text.Basic — texts as lists of characters.

  A trace, a test file and a deployment record are all read as one list of characters.
  `bytes` is the length of the UTF-8 form, the unit in which places in a test file are
  reported. `lines` cuts a text at every line feed and nothing else, so it always has one
  piece more than the text has line feeds, and `unlines` is its inverse. `after?` drops a
  known start, `cutLast` cuts at the last place where a mark stands.

  Proved here: `unlines_lines`, `lines_append_newline`, `after?_eq_some_iff`,
  `cutLast_append`.
-/

namespace Replay

abbrev Text := List Char

namespace Text

/-- Length of the UTF-8 form. -/
def bytes : Text → Nat
  | [] => 0
  | c :: r => c.utf8Size + bytes r

/-! ## Lines -/

/-- Put a character in front of the first piece. -/
def consFirst (c : Char) : List Text → List Text
  | [] => [[c]]
  | l :: ls => (c :: l) :: ls

def lines : Text → List Text
  | [] => [[]]
  | c :: r => if c = '\n' then [] :: lines r else consFirst c (lines r)

def unlines : List Text → Text
  | [] => []
  | [l] => l
  | l :: ls => l ++ '\n' :: unlines ls

/-- How many lines a reader counts: a final line feed ends the last line and starts none. -/
def lineCount (s : Text) : Nat :=
  let ls := lines s
  if ls.getLast? = some [] then ls.length - 1 else ls.length

/-! ## Starts and cuts -/

/-- What follows `mark` in a text that starts with it. -/
def after? : Text → Text → Option Text
  | [], s => some s
  | _ :: _, [] => none
  | m :: ms, c :: s => if m = c then after? ms s else none

/-- The last place where `mark` stands, as the text before it and the text from it on. -/
def cutLast (mark : Text) : Text → Option (Text × Text)
  | [] => none
  | c :: r =>
    match cutLast mark r with
    | some (a, b) => some (c :: a, b)
    | none => if mark.isPrefixOf (c :: r) then some ([], c :: r) else none

/-- Drop the longest run at the end that satisfies `p`. -/
def dropEndWhile (p : Char → Bool) (s : Text) : Text := (s.reverse.dropWhile p).reverse

/-! ## Lemmas -/

@[simp] theorem bytes_nil : bytes [] = 0 := rfl

@[simp] theorem bytes_append (a b : Text) : bytes (a ++ b) = bytes a + bytes b := by
  induction a with
  | nil => simp [bytes]
  | cons c r ih => simp only [bytes, List.cons_append, ih]; omega

theorem lines_ne_nil (s : Text) : lines s ≠ [] := by
  induction s with
  | nil => simp [lines]
  | cons c r ih =>
    simp only [lines]
    split
    · simp
    · cases h : lines r with
      | nil => exact absurd h ih
      | cons l ls => simp [consFirst]

theorem unlines_cons_of_ne_nil (l : Text) {ls : List Text} (h : ls ≠ []) :
    unlines (l :: ls) = l ++ '\n' :: unlines ls := by
  cases ls with
  | nil => exact absurd rfl h
  | cons m ms => rfl

theorem unlines_consFirst (c : Char) {ls : List Text} (h : ls ≠ []) :
    unlines (consFirst c ls) = c :: unlines ls := by
  match ls, h with
  | [_], _ => rfl
  | _ :: _ :: _, _ => rfl

theorem unlines_lines (s : Text) : unlines (lines s) = s := by
  induction s with
  | nil => rfl
  | cons c r ih =>
    simp only [lines]
    split
    · next h => rw [unlines_cons_of_ne_nil _ (lines_ne_nil r), ih, h]; rfl
    · rw [unlines_consFirst c (lines_ne_nil r), ih]

theorem lines_append_newline (a b : Text) : lines (a ++ '\n' :: b) = lines a ++ lines b := by
  induction a with
  | nil => simp [lines]
  | cons c r ih =>
    simp only [lines, List.cons_append, ih]
    split
    · rfl
    · cases h : lines r with
      | nil => exact absurd h (lines_ne_nil r)
      | cons l ls => rfl

theorem after?_eq_some_iff {m s r : Text} : after? m s = some r ↔ s = m ++ r := by
  induction m generalizing s with
  | nil => simp [after?]
  | cons c m ih =>
    cases s with
    | nil => simp [after?]
    | cons d s =>
      simp only [after?, List.cons_append, List.cons.injEq]
      split
      · next h => subst h; simp [ih]
      · next h => simp [Ne.symm h]

theorem cutLast_append {mark s a b : Text} (h : cutLast mark s = some (a, b)) : a ++ b = s := by
  induction s generalizing a b with
  | nil => simp [cutLast] at h
  | cons c r ih =>
    simp only [cutLast] at h
    split at h
    · next a' b' hc =>
      simp only [Option.some.injEq, Prod.mk.injEq] at h
      obtain ⟨rfl, rfl⟩ := h
      simp [ih hc]
    · split at h
      · simp only [Option.some.injEq, Prod.mk.injEq] at h
        obtain ⟨rfl, rfl⟩ := h
        rfl
      · simp at h

end Text
end Replay
