/-
  Replay.Proofs.TestFile.Filling — a test file with something put in front of its last close.

  A contract is often closed by a brace that stands apart: blank lines come before it, or
  comments with any text in them. All that is a `Filler`: white space, comments that end
  with their line, and comments that end with their closing mark. Read from the code, a
  filler leads back to the code at the depth at which it began, whatever its comments say.
  So the last close stays the last close, as much further on as the filler is long.

  A filler begins with white space, since the text in front of the last close may end with
  a slash: a comment right behind it would be read as another comment.

  Proved here: `places_structural_iff`, `scan_filler`, `lastClose_filled`, `places_filled`.
-/

import Replay.Proofs.TestFile.Places

namespace Replay.TestFile

open Text

/-- White space and comments that are closed. -/
inductive Filler : Text → Prop
  | nil : Filler []
  | space {c : Char} {w : Text} : isSpace c = true → Filler w → Filler (c :: w)
  | lineComment {inside w : Text} : '\n' ∉ inside → Filler w → Filler (lineMark ++ inside ++ '\n' :: w)
  | blockComment {inside w : Text} : ¬ blockEnd <:+: inside → Filler w →
      Filler (blockMark ++ inside ++ blockEnd ++ w)

/-! ## Reading a filler -/

/-- Outside the code no character changes the depth. -/
theorem scan_outside {m : Mode} (hm : m.isCode = false) (depth : Nat) (c : Char) (s : Text) :
    scan m depth (c :: s) = scan (m.next c) depth s := by
  simp [scan, deeper, hm]

theorem scan_space {m : Mode} (hm : m.isCode = true) {c : Char} (hc : isSpace c = true) (depth : Nat) (s : Text) :
    scan m depth (c :: s) = scan .code depth s := by
  have hne : ∀ d, isSpace d = false → c ≠ d := fun d hd => ne_of_isSpace hc hd
  have hplain : Mode.plain c = .code := plain_of_ne (hne '/' (by decide)) (hne '"' (by decide)) (hne '\x27' (by decide))
  have hnext : m.next c = .code := by
    rcases isCode_iff.1 hm with rfl | rfl
    · exact hplain
    · simp [Mode.next, hplain, hne '/' (by decide), hne '*' (by decide)]
  rw [scan, deeper_of_not_brace (hne '{' (by decide)) (hne '}' (by decide)), Option.bind_some, hnext]

theorem scan_lineComment {inside : Text} (hi : '\n' ∉ inside) (depth : Nat) :
    scan .lineComment depth inside = some (.lineComment, depth) := by
  induction inside with
  | nil => rfl
  | cons c inside ih =>
    simp only [List.mem_cons, not_or] at hi
    rw [scan_outside rfl, Mode.next, if_neg (Ne.symm hi.1), ih hi.2]

/-- Without a closing mark, a block comment goes on. -/
theorem scan_block {m : Mode} (hm : InBlock m) {inside : Text} (hi : ¬ blockEnd <:+: halfRead m ++ inside)
    (depth : Nat) : ∃ m', InBlock m' ∧ scan m depth inside = some (m', depth) := by
  induction inside generalizing m with
  | nil => exact ⟨m, hm, rfl⟩
  | cons c inside ih =>
    have houtside : m.isCode = false := by rcases hm with rfl | rfl <;> rfl
    obtain ⟨hnext, hrest⟩ := inBlock_next hm hi
    rw [scan_outside houtside]
    exact ih hnext hrest

theorem scan_blockEnd {m : Mode} (hm : InBlock m) (depth : Nat) :
    scan m depth blockEnd = some (.code, depth) := by
  rcases hm with rfl | rfl <;> rfl

theorem scan_filler {w : Text} (h : Filler w) (depth : Nat) : scan .code depth w = some (.code, depth) := by
  induction h with
  | nil => rfl
  | space hc _ ih => rw [scan_space rfl hc, ih]
  | lineComment hi _ ih =>
    have hopen : scan .code depth lineMark = some (.lineComment, depth) := rfl
    rw [List.append_assoc, scan_step hopen, scan_step (scan_lineComment hi depth), scan_outside rfl]
    exact ih
  | blockComment hi _ ih =>
    have hopen : scan .code depth blockMark = some (.blockComment, depth) := rfl
    obtain ⟨m, hm, hinside⟩ := scan_block (.inl rfl) hi depth
    rw [List.append_assoc, List.append_assoc, scan_step hopen, scan_step hinside, scan_step (scan_blockEnd hm depth)]
    exact ih

/-- Where the text in front of it ends with a slash, the white space takes the filler back to the code. -/
theorem scan_filler_behind {m : Mode} (hm : m.isCode = true) {w : Text} (h : Filler w)
    (hs : ∀ c ∈ w.head?, isSpace c = true) (depth : Nat) :
    ∃ m' : Mode, m'.isCode = true ∧ scan m depth w = some (m', depth) := by
  cases w with
  | nil => exact ⟨m, hm, rfl⟩
  | cons c w =>
    have hc := hs c rfl
    refine ⟨.code, rfl, ?_⟩
    rw [scan_space hm hc, ← scan_space (m := .code) rfl hc, scan_filler h]

/-! ## The last close behind a filler -/

theorem lastClose_filled {source a b w : Text} (h : lastClose source = some (a, b)) (hw : Filler w)
    (hs : ∀ c ∈ w.head?, isSpace c = true) : lastClose (a ++ w ++ b) = some (a ++ w, b) := by
  obtain ⟨-, ⟨m, hm, hscan⟩, hb⟩ := lastClose_eq_some_iff.1 h
  obtain ⟨m', hm', hfiller⟩ := scan_filler_behind hm hw hs 1
  exact lastClose_eq_some_iff.2 ⟨rfl, ⟨m', hm', by rw [scan_step hscan, hfiller]⟩, hb⟩

/-- The structural places are the last close, and where the text in front of it ends but for white space. -/
theorem places_structural_iff {source : Text} {headEnd close : Nat} :
    places .structural source = some (headEnd, close) ↔
      ∃ a b, lastClose source = some (a, b) ∧ bytes (trimEnd a) = headEnd ∧ bytes a = close := by
  rw [places_eq, Cut.find, Cut.structural]
  cases lastClose source with
  | none => simp
  | some p =>
    obtain ⟨a, b⟩ := p
    simp [Cut.headEnd, Cut.tailStart, bytes_trimEnd_add]

/-- A filler in front of the last close moves it by the bytes of the filler. -/
theorem places_filled {source w : Text} {headEnd close : Nat}
    (h : places .structural source = some (headEnd, close)) (hw : Filler w)
    (hs : ∀ c ∈ w.head?, isSpace c = true) :
    ∃ a b, source = a ++ b ∧ bytes a = close ∧ lastClose (a ++ w ++ b) = some (a ++ w, b) ∧
      places .structural (a ++ w ++ b) = some (bytes (trimEnd (a ++ w)), close + bytes w) := by
  obtain ⟨a, b, hlast, -, rfl⟩ := places_structural_iff.1 h
  have hfilled := lastClose_filled hlast hw hs
  refine ⟨a, b, (lastClose_append hlast).symm, rfl, hfilled, ?_⟩
  exact places_structural_iff.2 ⟨a ++ w, b, hfilled, rfl, bytes_append a w⟩

/-- A slash in front, and comments that hold braces, quotes and the mark of the other kind. -/
theorem places_filled_of_slash :
    places .structural "T \x7b /\x7d".toList = some (5, 5) ∧
      Filler "\n// é \x7d \" /*\n/* \x7b // \x27 */".toList ∧
      (∀ c ∈ "\n// é \x7d \" /*\n/* \x7b // \x27 */".toList.head?, isSpace c = true) ∧
      ∃ a b, "T \x7b /\x7d".toList = a ++ b ∧ bytes a = 5 ∧
        lastClose (a ++ "\n// é \x7d \" /*\n/* \x7b // \x27 */".toList ++ b) =
          some (a ++ "\n// é \x7d \" /*\n/* \x7b // \x27 */".toList, b) ∧
        places .structural (a ++ "\n// é \x7d \" /*\n/* \x7b // \x27 */".toList ++ b) =
          some (bytes (trimEnd (a ++ "\n// é \x7d \" /*\n/* \x7b // \x27 */".toList)),
            5 + bytes "\n// é \x7d \" /*\n/* \x7b // \x27 */".toList) := by
  have hplaces : places .structural "T \x7b /\x7d".toList = some (5, 5) := by decide
  have hparts : "\n// é \x7d \" /*\n/* \x7b // \x27 */".toList = '\n' :: (lineMark ++ " é \x7d \" /*".toList ++
      '\n' :: (blockMark ++ " \x7b // \x27 ".toList ++ blockEnd ++ [])) := by decide
  have hline : '\n' ∉ " é \x7d \" /*".toList := by decide
  have hblock : ¬ blockEnd <:+: " \x7b // \x27 ".toList := not_infix_of_not_mem (by decide)
  have hfiller : Filler "\n// é \x7d \" /*\n/* \x7b // \x27 */".toList := by
    rw [hparts]
    exact .space (by decide) (.lineComment hline (.blockComment hblock .nil))
  have hstart : ∀ c ∈ "\n// é \x7d \" /*\n/* \x7b // \x27 */".toList.head?, isSpace c = true := by
    rw [hparts]
    intro c hc
    obtain rfl := Option.some.inj (show some '\n' = some c from hc)
    decide
  exact ⟨hplaces, hfiller, hstart, places_filled hplaces hfiller hstart⟩

/-- Right behind the slash, a comment becomes another one and takes the brace in. -/
example : Filler "/**/".toList ∧ lastClose "T \x7b /\x7d".toList = some ("T \x7b /".toList, "\x7d".toList) ∧
    lastClose ("T \x7b /".toList ++ "/**/".toList ++ "\x7d".toList) = none :=
  ⟨.blockComment (show ¬ blockEnd <:+: [] by decide) .nil, by decide, by decide⟩

end Replay.TestFile
