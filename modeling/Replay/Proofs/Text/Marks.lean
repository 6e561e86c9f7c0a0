/-
  Replay.Proofs.Text.Marks — where a mark stands in a text, and what lines hold.

  A mark is a fixed text that a rule looks for. It cannot begin in a stretch that lacks its
  first character, so it can be looked for behind that stretch only; the cut at the last
  mark exists exactly where the mark stands at all. A text is a run of any class of
  characters and a rest that does not go on with it. Lines hold no line feed, and a mark
  without one stands in a text exactly if it stands in one of its lines.

  Proved here: `infix_skip`, `cutLast_eq_none_iff`, `exists_cutLast`, `cutLast_of_last`,
  `exists_run`, `lines_unlines`, `lines_induction`, `infix_iff_mem_lines`.
-/

import Replay.Text.Class

namespace Replay.Text

/-! ## Marks -/

/-- A mark does not begin where its first character is missing. -/
theorem infix_skip {q : Char} {mark a s : Text} (h : q ∉ a) :
    q :: mark <:+: a ++ s ↔ q :: mark <:+: s := by
  induction a with
  | nil => rfl
  | cons c a ih =>
    have hc : ¬ q :: mark <+: c :: (a ++ s) := by
      intro hp
      exact h (List.mem_cons.2 (.inl (List.cons_prefix_cons.1 hp).1))
    rw [List.cons_append, List.infix_cons_iff, ih fun hq => h (List.mem_cons_of_mem c hq)]
    simp [hc]

theorem not_infix_of_not_mem {q : Char} {mark s : Text} (h : q ∉ s) : ¬ q :: mark <:+: s := by
  intro hm
  exact h (hm.mem List.mem_cons_self)

/-- A stretch without the character `e` ends before the other side's `e`. -/
theorem append_eq_skip {p r a s : Text} {e : Char} (h : p ++ r = a ++ e :: s) (he : e ∉ p) :
    ∃ t, a = p ++ t ∧ r = t ++ e :: s := by
  rcases List.append_eq_append_iff.1 h with ⟨t, rfl, hr⟩ | ⟨t, rfl, hr⟩
  · exact ⟨t, rfl, hr⟩
  · cases t with
    | nil => exact ⟨[], by simp, by simpa using hr.symm⟩
    | cons c t =>
      obtain ⟨rfl, -⟩ := List.cons.inj hr
      simp at he

/-- A character missing at the end of the other side stands in its first part. -/
theorem append_eq_keep {a s b z : Text} {e : Char} (h : a ++ e :: s = b ++ z) (he : e ∉ z) :
    ∃ t, b = a ++ e :: t ∧ s = t ++ z := by
  rcases List.append_eq_append_iff.1 h with ⟨t, rfl, hz⟩ | ⟨t, rfl, hz⟩
  · cases t with
    | nil =>
      rw [← show e :: s = z from hz] at he
      simp at he
    | cons c t =>
      obtain ⟨rfl, hs⟩ := List.cons.inj hz
      exact ⟨t, rfl, hs⟩
  · rw [hz] at he
    simp at he

theorem after?_eq_none_iff {mark s : Text} : after? mark s = none ↔ ¬ mark <+: s := by
  rw [Option.eq_none_iff_forall_ne_some]
  constructor
  · intro h hs
    obtain ⟨r, rfl⟩ := hs
    exact h r (after?_eq_some_iff.2 rfl)
  · intro h r hr
    exact h ⟨r, (after?_eq_some_iff.1 hr).symm⟩

theorem cutLast_eq_none_iff {mark s : Text} (hm : mark ≠ []) :
    cutLast mark s = none ↔ ¬ mark <:+: s := by
  induction s with
  | nil => simpa [cutLast] using hm
  | cons c r ih =>
    simp only [cutLast, List.infix_cons_iff]
    cases hr : cutLast mark r with
    | some p =>
      have : mark <:+: r := by
        apply Classical.byContradiction
        intro hn
        simp [ih.2 hn] at hr
      simp [this]
    | none => simp [ih.1 hr]

theorem cutLast_skip {q : Char} {mark a : Text} (h : q ∉ a) (s : Text) :
    cutLast (q :: mark) (a ++ s) = (cutLast (q :: mark) s).map fun p => (a ++ p.1, p.2) := by
  induction a with
  | nil => simp
  | cons c a ih =>
    simp only [List.mem_cons, not_or] at h
    have hc : (q :: mark).isPrefixOf (c :: (a ++ s)) = false := by simp [List.isPrefixOf, h.1]
    rw [List.cons_append, cutLast, ih h.2]
    cases cutLast (q :: mark) s with
    | none => simp [hc]
    | some p => rfl

/-- The last place of a mark is the one behind which it stands no more. -/
theorem cutLast_of_last {mark a b : Text} (hm : mark <+: b) (hne : b ≠ [])
    (hlast : ¬ mark <:+: b.tail) : cutLast mark (a ++ b) = some (a, b) := by
  have hmark : mark ≠ [] := by
    intro he
    subst he
    exact hlast List.nil_infix
  induction a with
  | nil =>
    cases b with
    | nil => exact absurd rfl hne
    | cons c r =>
      have hr : cutLast mark r = none := (cutLast_eq_none_iff hmark).2 hlast
      simp [cutLast, hr, List.isPrefixOf_iff_prefix.2 hm]
  | cons c a ih => simp [cutLast, ih]

/-- A text in which a mark stands has a last place for it. -/
theorem exists_cutLast {mark s : Text} (hm : mark ≠ []) (h : mark <:+: s) :
    ∃ a r, s = a ++ mark ++ r ∧ ¬ mark <:+: (mark ++ r).tail := by
  induction s with
  | nil => exact absurd (List.infix_nil.1 h) hm
  | cons c s ih =>
    by_cases hs : mark <:+: s
    · obtain ⟨a, r, rfl, hlast⟩ := ih hs
      exact ⟨c :: a, r, rfl, hlast⟩
    · obtain ⟨r, hr⟩ := (List.infix_cons_iff.1 h).resolve_right hs
      exact ⟨[], r, hr.symm, by rw [hr]; exact hs⟩

/-! ## Runs of a class -/

theorem run_not_mem {p : Char → Bool} {run : Text} (h : ∀ c ∈ run, p c = true) {c : Char} (hc : p c = false) :
    c ∉ run := by
  intro hm
  rw [h c hm] at hc
  cases hc

theorem fails_head {p : Char → Bool} {c : Char} (h : p c = false) (s : Text) :
    ∀ d ∈ (c :: s).head?, p d = false := by
  intro d hd
  obtain rfl := Option.some.inj (show some c = some d from hd)
  exact h

theorem takeWhile_of_head {p : Char → Bool} {s : Text} (h : ∀ c ∈ s.head?, p c = false) : s.takeWhile p = [] := by
  cases s with
  | nil => rfl
  | cons c s => simp [h c rfl]

theorem dropWhile_of_head {p : Char → Bool} {s : Text} (h : ∀ c ∈ s.head?, p c = false) : s.dropWhile p = s := by
  cases s with
  | nil => rfl
  | cons c s => simp [h c rfl]

theorem takeWhile_run {p : Char → Bool} {run rest : Text} (hr : ∀ c ∈ run, p c = true)
    (hs : ∀ c ∈ rest.head?, p c = false) : (run ++ rest).takeWhile p = run := by
  rw [List.takeWhile_append_of_pos hr, takeWhile_of_head hs, List.append_nil]

theorem dropWhile_run {p : Char → Bool} {run rest : Text} (hr : ∀ c ∈ run, p c = true)
    (hs : ∀ c ∈ rest.head?, p c = false) : (run ++ rest).dropWhile p = rest := by
  rw [List.dropWhile_append_of_pos hr, dropWhile_of_head hs]

/-- White space of ASCII lies in front of the printed characters, all other behind them. -/
theorem isSpace_eq_false {c : Char} (h : 0x20 < c.toNat ∧ c.toNat < 0x80) : isSpace c = false := by
  simp only [isSpace, inRanges, spaceRanges, List.any_cons, List.any_nil, Bool.or_false, Bool.or_eq_false_iff,
    Bool.and_eq_false_iff, decide_eq_false_iff_not]
  omega

/-- Every text is a run of a class and a rest that does not go on with it. -/
theorem exists_run (p : Char → Bool) (s : Text) :
    ∃ run rest, s = run ++ rest ∧ (∀ c ∈ run, p c = true) ∧ ∀ c ∈ rest.head?, p c = false := by
  induction s with
  | nil => exact ⟨[], [], rfl, by simp, by simp⟩
  | cons c s ih =>
    cases hc : p c with
    | false => exact ⟨[], c :: s, rfl, by simp, by simp [hc]⟩
    | true =>
      obtain ⟨run, rest, rfl, hr, hs⟩ := ih
      refine ⟨c :: run, rest, rfl, ?_, hs⟩
      intro d hd
      rcases List.mem_cons.1 hd with rfl | hd
      · exact hc
      · exact hr d hd

/-- There is one such run and rest. -/
theorem run_unique {p : Char → Bool} {run rest run' rest' : Text} (h : run ++ rest = run' ++ rest')
    (hr : ∀ c ∈ run, p c = true) (hs : ∀ c ∈ rest.head?, p c = false)
    (hr' : ∀ c ∈ run', p c = true) (hs' : ∀ c ∈ rest'.head?, p c = false) :
    run = run' ∧ rest = rest' := by
  have hrun := takeWhile_run hr hs
  have hrest := dropWhile_run hr hs
  rw [h, takeWhile_run hr' hs'] at hrun
  rw [h, dropWhile_run hr' hs'] at hrest
  exact ⟨hrun.symm, hrest.symm⟩

/-- Seen from the end, likewise. -/
theorem last_run_unique {p : Char → Bool} {a run a' run' : Text} (h : a ++ run = a' ++ run')
    (hr : ∀ c ∈ run, p c = true) (ha : ∀ c ∈ a.getLast?, p c = false)
    (hr' : ∀ c ∈ run', p c = true) (ha' : ∀ c ∈ a'.getLast?, p c = false) : a = a' ∧ run = run' := by
  have hrev : run.reverse ++ a.reverse = run'.reverse ++ a'.reverse := by
    rw [← List.reverse_append, ← List.reverse_append, h]
  obtain ⟨hrun, hback⟩ := run_unique hrev (by simpa using hr) (by simpa using ha) (by simpa using hr') (by simpa using ha')
  exact ⟨List.reverse_inj.1 hback, List.reverse_inj.1 hrun⟩

theorem guard_bind {α : Type} {p : Prop} [Decidable p] (f : Unit → Option α) :
    (guard p >>= f) = if p then f () else none := by
  by_cases h : p
  · have hsome : (guard p : Option Unit) = some () := if_pos h
    rw [hsome, if_pos h]
    rfl
  · have hnone : (guard p : Option Unit) = none := if_neg h
    rw [hnone, if_neg h]
    rfl

/-! ## Lines -/

theorem consFirst_eq (c : Char) {l : Text} {ls : List Text} : consFirst c (l :: ls) = (c :: l) :: ls :=
  rfl

theorem eq_of_lines {s t : Text} (h : lines s = lines t) : s = t := by
  rw [← unlines_lines s, h, unlines_lines]

theorem lines_of_not_mem {s : Text} (h : '\n' ∉ s) : lines s = [s] := by
  induction s with
  | nil => rfl
  | cons c r ih =>
    simp only [List.mem_cons, not_or] at h
    rw [lines, if_neg (Ne.symm h.1), ih h.2]
    rfl

theorem not_mem_of_mem_lines {l s : Text} (h : l ∈ lines s) : '\n' ∉ l := by
  induction s generalizing l with
  | nil =>
    simp only [lines, List.mem_singleton] at h
    simp [h]
  | cons c r ih =>
    simp only [lines] at h
    split at h
    · rcases List.mem_cons.1 h with rfl | h
      · simp
      · exact ih h
    · next hc =>
      cases hr : lines r with
      | nil => exact absurd hr (lines_ne_nil r)
      | cons m ms =>
        rw [hr, consFirst_eq] at h
        rcases List.mem_cons.1 h with rfl | h
        · have := ih (l := m) (by simp [hr])
          simpa [Ne.symm hc] using this
        · exact ih (by simp [hr, h])

theorem lines_unlines {ls : List Text} (h : ls ≠ []) : lines (unlines ls) = ls.flatMap lines := by
  induction ls with
  | nil => exact absurd rfl h
  | cons l ls ih =>
    cases ls with
    | nil => simp [unlines]
    | cons m ms =>
      rw [unlines_cons_of_ne_nil l (by simp), lines_append_newline, ih (by simp)]
      rfl

/-- Lines that hold no line feed are the lines of their text. -/
theorem lines_unlines_of_not_mem {ls : List Text} (h : ls ≠ []) (hn : ∀ l ∈ ls, '\n' ∉ l) :
    lines (unlines ls) = ls := by
  rw [lines_unlines h]
  clear h
  induction ls with
  | nil => rfl
  | cons l ls ih =>
    simp only [List.mem_cons, forall_eq_or_imp] at hn
    rw [List.flatMap_cons, lines_of_not_mem hn.1, ih hn.2]
    rfl

/-- A text is a line, or a line and a text behind its line feed. -/
theorem lines_induction {P : Text → Prop} (line : ∀ l, '\n' ∉ l → P l)
    (more : ∀ l s, '\n' ∉ l → P s → P (l ++ '\n' :: s)) (s : Text) : P s := by
  suffices ∀ ls : List Text, ls ≠ [] → (∀ l ∈ ls, '\n' ∉ l) → P (unlines ls) by
    have hlines := this (lines s) (lines_ne_nil s) fun _ => not_mem_of_mem_lines
    rwa [unlines_lines] at hlines
  intro ls hne hls
  induction ls with
  | nil => exact absurd rfl hne
  | cons l ls ih =>
    obtain ⟨hl, hls⟩ := List.forall_mem_cons.1 hls
    by_cases hnil : ls = []
    · subst hnil
      exact line l hl
    · rw [unlines_cons_of_ne_nil l hnil]
      exact more l _ hl (ih hnil hls)

theorem lines_cons_line {l : Text} (h : '\n' ∉ l) (s : Text) : lines (l ++ '\n' :: s) = l :: lines s := by
  rw [lines_append_newline, lines_of_not_mem h]
  rfl

/-- A mark ends in front of a character that it lacks. -/
theorem prefix_append_cons_iff {mark s b : Text} {c : Char} (h : c ∉ mark) :
    mark <+: s ++ c :: b ↔ mark <+: s := by
  constructor
  · intro hp
    obtain ⟨r, hr⟩ := hp
    obtain ⟨t, rfl, -⟩ := append_eq_skip hr h
    exact List.prefix_append mark t
  · intro hp
    exact hp.trans (List.prefix_append s (c :: b))

/-- A mark lies on one side of a character that it lacks. -/
theorem infix_append_cons_iff {mark a b : Text} {e : Char} (hm : mark ≠ []) (hn : e ∉ mark) :
    mark <:+: a ++ e :: b ↔ mark <:+: a ∨ mark <:+: b := by
  constructor
  · intro h
    obtain ⟨u, v, h⟩ := h
    rw [List.append_assoc, List.append_eq_append_iff] at h
    rcases h with ⟨t, ht, h⟩ | ⟨t, rfl, h⟩
    · rw [List.append_eq_append_iff] at h
      rcases h with ⟨w, rfl, h⟩ | ⟨w, rfl, h⟩
      · left
        exact ⟨u, w, by rw [List.append_assoc, ← ht]⟩
      · cases w with
        | nil =>
          left
          exact ⟨u, [], by simp [ht]⟩
        | cons c w =>
          obtain ⟨rfl, -⟩ := List.cons.inj h
          simp at hn
    · cases t with
      | nil =>
        cases mark with
        | nil => exact absurd rfl hm
        | cons c mark =>
          obtain ⟨rfl, -⟩ := List.cons.inj h
          simp at hn
      | cons c t =>
        right
        obtain ⟨-, rfl⟩ := List.cons.inj h
        exact ⟨t, v, by simp⟩
  · intro h
    rcases h with h | h
    · exact List.infix_append_of_infix_left h
    · exact List.infix_append_of_infix_right (List.infix_cons h)

theorem infix_iff_mem_lines {mark s : Text} (hm : mark ≠ []) (hn : '\n' ∉ mark) :
    mark <:+: s ↔ ∃ l ∈ lines s, mark <:+: l := by
  refine lines_induction (P := fun s => mark <:+: s ↔ ∃ l ∈ lines s, mark <:+: l) ?line ?more s
  case line =>
    intro l hl
    simp [lines_of_not_mem hl]
  case more =>
    intro l s hl ih
    rw [infix_append_cons_iff hm hn, ih, lines_cons_line hl]
    simp

end Replay.Text
