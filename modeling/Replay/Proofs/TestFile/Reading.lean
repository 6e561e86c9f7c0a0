/-
  Replay.Proofs.TestFile.Reading — a test file read in pieces.

  Reading a text takes a mode and a depth to a mode and a depth (`scan`), and what follows
  sees nothing else of it. The last close of a file is a brace of the code, read at depth
  one, behind which no container closes and none stays open (`LastBrace`). White space
  changes no depth. It ends a line comment and nothing else: a string or a block comment
  that is open in front of it is open behind it.

  Proved here: `scan_append`, `lastClose_eq_some_iff`, `scan_spaces`, `scan_name`.
-/

import Replay.Proofs.TestFile.Declarations
import Replay.TestFile.Braces

namespace Replay.TestFile

open Text

/-- Mode and depth behind a text; `none` if it closes a brace that none opened. -/
def scan : Mode → Nat → Text → Option (Mode × Nat)
  | m, depth, [] => some (m, depth)
  | m, depth, c :: r => (deeper m depth c).bind fun depth' => scan (m.next c) depth' r

theorem scan_append (m : Mode) (depth : Nat) (a b : Text) :
    scan m depth (a ++ b) = (scan m depth a).bind fun p => scan p.1 p.2 b := by
  induction a generalizing m depth with
  | nil => rfl
  | cons c a ih => simp only [List.cons_append, scan, Option.bind_assoc, ih]

theorem scan_step {m m' : Mode} {depth depth' : Nat} {a : Text} (h : scan m depth a = some (m', depth')) (b : Text) :
    scan m depth (a ++ b) = scan m' depth' b := by
  rw [scan_append, h]
  rfl

/-- A brace behind which no container closes and none stays open. -/
def LastBrace (b : Text) : Prop := ∃ r, b = '}' :: r ∧ lastCloseFrom .code 0 r = some none

/-! ## The cut -/

theorem isCode_iff {m : Mode} : m.isCode = true ↔ m = .code ∨ m = .slash := by
  cases m <;> simp [Mode.isCode]

theorem next_brace {m : Mode} (h : m.isCode = true) : m.next '}' = .code := by
  rcases isCode_iff.1 h with rfl | rfl <;> rfl

theorem next_lineFeed {m : Mode} (h : m.isCode = true) : m.next '\n' = .code := by
  rcases isCode_iff.1 h with rfl | rfl <;> rfl

theorem deeper_brace {m : Mode} (h : m.isCode = true) (depth : Nat) : deeper m (depth + 1) '}' = some depth := by
  simp [deeper, h]

theorem lastCloseFrom_of_scan {m m' : Mode} {depth : Nat} {a b : Text} (h : scan m depth a = some (m', 1))
    (hm : m'.isCode = true) (hb : LastBrace b) : lastCloseFrom m depth (a ++ b) = some (some (a, b)) := by
  induction a generalizing m depth with
  | nil =>
    obtain ⟨r, rfl, hr⟩ := hb
    cases h
    simp [lastCloseFrom, deeper_brace hm, next_brace hm, hr, ends, hm]
  | cons c a ih =>
    obtain ⟨depth', hd, h⟩ := Option.bind_eq_some_iff.1 h
    simp [lastCloseFrom, hd, ih h]

theorem scan_of_lastCloseFrom {m : Mode} {depth : Nat} {s a b : Text}
    (h : lastCloseFrom m depth s = some (some (a, b))) :
    (∃ m' : Mode, m'.isCode = true ∧ scan m depth a = some (m', 1)) ∧ LastBrace b := by
  induction s generalizing m depth a b with
  | nil =>
    simp only [lastCloseFrom] at h
    split at h <;> cases h
  | cons c r ih =>
    simp only [lastCloseFrom, Option.bind_eq_bind, Option.bind_eq_some_iff] at h
    obtain ⟨depth', hd, o, ho, h⟩ := h
    cases o with
    | some p =>
      cases h
      obtain ⟨⟨m', hm, hscan⟩, hb⟩ := ih ho
      exact ⟨⟨m', hm, by rw [scan, hd]; exact hscan⟩, hb⟩
    | none =>
      cases hends : ends m depth c with
      | false => simp [hends] at h
      | true =>
        obtain ⟨rfl, rfl⟩ : a = [] ∧ b = c :: r := by simpa [hends, eq_comm] using h
        simp only [ends, Bool.and_eq_true, decide_eq_true_eq] at hends
        obtain ⟨⟨hm, rfl⟩, rfl⟩ := hends
        rw [deeper_brace hm] at hd
        cases hd
        rw [next_brace hm] at ho
        exact ⟨⟨m, hm, rfl⟩, r, rfl, ho⟩

/-- The last close is a brace of the code at depth one behind which nothing closes. -/
theorem lastClose_eq_some_iff {s a b : Text} : lastClose s = some (a, b) ↔
    s = a ++ b ∧ (∃ m : Mode, m.isCode = true ∧ scan .code 0 a = some (m, 1)) ∧ LastBrace b := by
  constructor
  · intro h
    exact ⟨(lastClose_append h).symm, scan_of_lastCloseFrom (Option.join_eq_some_iff.1 h)⟩
  · rintro ⟨rfl, ⟨m, hm, hscan⟩, hb⟩
    exact Option.join_eq_some_iff.2 (lastCloseFrom_of_scan hscan hm hb)

/-! ## White space -/

theorem trimEnd_run {a gap : Text} {c : Char} (hc : isSpace c = false) (hg : ∀ d ∈ gap, isSpace d = true) :
    trimEnd (a ++ [c] ++ gap) = a ++ [c] := by
  have hrev : (a ++ [c] ++ gap).reverse = gap.reverse ++ c :: a.reverse := by simp
  rw [trimEnd, dropEndWhile, hrev, dropWhile_run (by simpa using hg) (fails_head hc _)]
  simp

/-- A string does not end with white space. -/
def Mode.Sound : Mode → Prop
  | .quote mark | .escape mark => isSpace mark = false
  | _ => True

/-- What holds of the quote that an open string began with. -/
def Mode.QuoteIs (P : Char → Prop) : Mode → Prop
  | .quote mark | .escape mark => P mark
  | _ => True

theorem sound_iff {m : Mode} : m.Sound ↔ m.QuoteIs (isSpace · = false) := by cases m <;> rfl

section Quotes

variable {P : Char → Prop} (hdouble : P '"') (hsingle : P '\x27')

include hdouble hsingle

theorem quoteIs_plain (c : Char) : (Mode.plain c).QuoteIs P := by
  unfold Mode.plain
  split
  · trivial
  · split
    · next h =>
      simp only [Bool.or_eq_true, decide_eq_true_eq] at h
      rcases h with rfl | rfl
      · exact hdouble
      · exact hsingle
    · trivial

theorem quoteIs_next {m : Mode} (h : m.QuoteIs P) (c : Char) : (m.next c).QuoteIs P := by
  cases m with
  | code => exact quoteIs_plain hdouble hsingle c
  | slash =>
    simp only [Mode.next]
    split
    · trivial
    · split
      · trivial
      · exact quoteIs_plain hdouble hsingle c
  | lineComment => simp only [Mode.next]; split <;> trivial
  | blockComment => simp only [Mode.next]; split <;> trivial
  | star =>
    simp only [Mode.next]
    split
    · trivial
    · split <;> trivial
  | quote mark =>
    simp only [Mode.next]
    split
    · trivial
    · split <;> exact h
  | escape mark => exact h

end Quotes

theorem sound_next {m : Mode} (h : m.Sound) (c : Char) : (m.next c).Sound :=
  sound_iff.2 (quoteIs_next (by decide) (by decide) (sound_iff.1 h) c)

theorem sound_scan {m m' : Mode} {depth depth' : Nat} {a : Text} (hm : m.Sound)
    (h : scan m depth a = some (m', depth')) : m'.Sound := by
  induction a generalizing m depth with
  | nil =>
    cases h
    exact hm
  | cons c a ih =>
    obtain ⟨d, -, h⟩ := Option.bind_eq_some_iff.1 h
    exact ih (sound_next hm c) h

theorem deeper_of_not_brace {c : Char} (hopen : c ≠ '{') (hclose : c ≠ '}') (m : Mode) (depth : Nat) :
    deeper m depth c = some depth := by
  simp [deeper, hopen, hclose]

theorem ne_of_isSpace {c d : Char} (h : isSpace c = true) (hd : isSpace d = false) : c ≠ d := by
  rintro rfl
  rw [h] at hd
  cases hd

/-- Where white space and a line feed lead to the code, the line feed alone does. -/
theorem next_of_space {m : Mode} {c : Char} (hm : m.Sound) (hc : isSpace c = true)
    (h : (m.next c).next '\n' = .code) : m.next '\n' = .code := by
  cases m with
  | code => rfl
  | slash => rfl
  | lineComment => rfl
  | blockComment => simp [Mode.next, ne_of_isSpace hc (show isSpace '*' = false by decide)] at h
  | star =>
    simp [Mode.next, ne_of_isSpace hc (show isSpace '*' = false by decide),
      ne_of_isSpace hc (show isSpace '/' = false by decide)] at h
  | quote mark =>
    simp [Mode.next, ne_of_isSpace hc hm, ne_of_isSpace (show isSpace '\n' = true by decide) hm,
      ne_of_isSpace hc (show isSpace '\\' = false by decide)] at h
  | escape mark => simp [Mode.next, ne_of_isSpace (show isSpace '\n' = true by decide) hm] at h

theorem scan_spaces {m m' : Mode} {depth depth' : Nat} {gap : Text} (hm : m.Sound)
    (hg : ∀ c ∈ gap, isSpace c = true) (h : scan m depth gap = some (m', depth')) (hm' : m'.next '\n' = .code) :
    m.next '\n' = .code ∧ depth = depth' := by
  induction gap generalizing m depth with
  | nil =>
    cases h
    exact ⟨hm', rfl⟩
  | cons c gap ih =>
    have hc := hg c List.mem_cons_self
    rw [scan, deeper_of_not_brace (ne_of_isSpace hc (by decide)) (ne_of_isSpace hc (by decide)), Option.bind_some] at h
    obtain ⟨hnext, hd⟩ := ih (sound_next hm c) (fun d hd => hg d (List.mem_cons_of_mem c hd)) h
    exact ⟨next_of_space hm hc hnext, hd⟩

/-! ## Names -/

/-- A character that begins no mark and no string leaves the reading in the code. -/
theorem plain_of_ne {c : Char} (hslash : c ≠ '/') (hdouble : c ≠ '"') (hsingle : c ≠ '\x27') :
    Mode.plain c = .code := by
  simp [Mode.plain, hslash, hdouble, hsingle]

/-- Nothing that a name is made of changes the reading of the code. -/
theorem scan_name {name : Text} (h : ∀ c ∈ name, isNameChar c = true) (depth : Nat) :
    scan .code depth name = some (.code, depth) := by
  induction name with
  | nil => rfl
  | cons c name ih =>
    have hc := h c List.mem_cons_self
    have hne : ∀ d, isNameChar d = false → c ≠ d := by
      rintro d hd rfl
      rw [hc] at hd
      cases hd
    have hplain : Mode.plain c = .code :=
      plain_of_ne (hne '/' (by decide)) (hne '"' (by decide)) (hne '\x27' (by decide))
    rw [scan, deeper_of_not_brace (hne '{' (by decide)) (hne '}' (by decide)), Option.bind_some, Mode.next, hplain]
    exact ih fun d hd => h d (List.mem_cons_of_mem c hd)

end Replay.TestFile
