/-
  Replay.Proofs.Trace.WellFormed — the block of a well-formed trace.

  A well-formed line is blank, or indented and possibly marked, and then holds a delay, a
  call, or a call with its delay. What is free text in it (the arguments of a call, what
  follows the seconds of a delay) holds no line feed, no wait mark and no end of a call
  that a delay follows. The parts of a line carry these conditions, so that a `Line` is
  well-formed by construction, and `Line.output` says from the parts what it becomes.

  Proved here: `transform_wellFormed`.
-/

import Replay.Proofs.Trace.Lines

namespace Replay.Trace

open Text Pass

/-! ## Lines and what they become -/

/-- Free text of a line. -/
structure Plain (s : Text) : Prop where
  oneLine : '\n' ∉ s
  unmarked : ¬ Marked s
  undelayed : ¬ callMark <:+: s

/-- The seconds of a delay, and what follows them on the line. -/
structure Timing where
  seconds : Text
  rest : Text
  some_seconds : seconds ≠ []
  digits : ∀ c ∈ seconds, isAsciiDigit c = true
  plain : Plain rest

structure Invocation where
  name : Text
  args : Text
  named : IsCallName name
  plain : Plain args

inductive Entry where
  | delay (t : Timing)
  | call (f : Invocation) (trail : Text) (h : LineEnd trail)
  | delayed (f : Invocation) (t : Timing)

inductive Line where
  | blank (indent : Text) (h : Blanks indent)
  | entry (indent : Text) (h : Blanks indent) (marks : Nat) (e : Entry)

def Entry.text : Entry → Text
  | .delay t => delayMark ++ t.seconds ++ ' ' :: t.rest
  | .call f trail _ => f.name ++ '(' :: f.args ++ ')' :: trail
  | .delayed f t => f.name ++ '(' :: f.args ++ callMark ++ (t.seconds ++ ' ' :: t.rest)

def Line.source : Line → Text
  | .blank indent _ => indent
  | .entry indent _ marks e => indent ++ (List.replicate marks waitMark).flatten ++ e.text

/-- The indentation of a statement. -/
def pad (indent : Text) : Text := if indent.length ≤ 7 then depth else indent

def warpOf (indent : Text) (t : Timing) : Text := pad indent ++ warpHead ++ t.seconds ++ [')', ';']

def callOf (indent : Text) (f : Invocation) (trail : Text) : Text :=
  pad indent ++ f.name ++ '(' :: Pass.addresses.apply f.args ++ ')' :: ';' :: trail

/-- A delayed call becomes the delay and then the call, one level deeper. -/
def Line.output : Line → List Text
  | .blank indent _ => [indent]
  | .entry indent _ _ (.delay t) => [warpOf indent t]
  | .entry indent _ _ (.call f trail _) => [callOf indent f trail]
  | .entry indent _ _ (.delayed f t) => [warpOf indent t, callOf (indent ++ level) f []]

/-! ## Characters of the parts -/

theorem isDigit_of_isAsciiDigit {c : Char} (h : isAsciiDigit c = true) : isDigit c = true := by
  have hc : c.toNat < 0x80 := by
    have h' := h
    simp only [isAsciiDigit, Bool.and_eq_true, decide_eq_true_eq, Char.le_def, UInt32.le_iff_toNat_le] at h'
    exact Nat.lt_of_le_of_lt h'.2 (by decide)
  rw [isDigit, if_pos hc, h]

theorem Timing.isDigit (t : Timing) : ∀ c ∈ t.seconds, Text.isDigit c = true := fun c hc =>
  isDigit_of_isAsciiDigit (t.digits c hc)

theorem Timing.not_mem (t : Timing) {c : Char} (hc : isAsciiDigit c = false) : c ∉ t.seconds :=
  run_not_mem t.digits hc

theorem Invocation.not_mem (f : Invocation) {c : Char} (hc : isCallChar c = false) : c ∉ f.name :=
  run_not_mem f.named.chars hc

theorem blanks_append {a b : Text} (ha : Blanks a) (hb : Blanks b) : Blanks (a ++ b) := by
  intro c hc
  rcases List.mem_append.1 hc with h | h
  · exact ha c h
  · exact hb c h

theorem blanks_level : Blanks level := List.all_eq_true.1 (by decide)

theorem Entry.oneLine (e : Entry) : '\n' ∉ e.text := by
  cases e with
  | delay t =>
    simp only [Entry.text, List.mem_append, List.mem_cons, not_or]
    exact ⟨⟨by decide, t.not_mem (by decide)⟩, by decide, t.plain.oneLine⟩
  | call f trail h =>
    simp only [Entry.text, List.mem_append, List.mem_cons, not_or]
    exact ⟨⟨f.not_mem (by decide), by decide, f.plain.oneLine⟩, by decide, h.not_mem (by decide) (by decide)⟩
  | delayed f t =>
    simp only [Entry.text, List.mem_append, List.mem_cons, not_or]
    exact ⟨⟨⟨f.not_mem (by decide), by decide, f.plain.oneLine⟩, by decide⟩, t.not_mem (by decide), by decide,
      t.plain.oneLine⟩

theorem copies_oneLine (n : Nat) : '\n' ∉ (List.replicate n waitMark).flatten := by
  intro h
  obtain ⟨m, hm, hc⟩ := List.mem_flatten.1 h
  obtain ⟨-, rfl⟩ := List.mem_replicate.1 hm
  revert hc
  decide

theorem Line.oneLine (l : Line) : '\n' ∉ l.source := by
  cases l with
  | blank indent hi => exact run_not_mem hi (by decide)
  | entry indent hi marks e =>
    simp only [Line.source, List.mem_append, not_or]
    exact ⟨⟨run_not_mem hi (by decide), copies_oneLine marks⟩, e.oneLine⟩

/-! ## The first two passes -/

theorem Timing.not_marked (t : Timing) : ¬ Marked (delayMark ++ t.seconds ++ ' ' :: t.rest) := by
  have hskip : '*' ∉ delayMark ++ t.seconds ++ [' '] := by
    simp only [List.mem_append, not_or]
    exact ⟨⟨by decide, t.not_mem (by decide)⟩, by decide⟩
  rw [show delayMark ++ t.seconds ++ ' ' :: t.rest = delayMark ++ t.seconds ++ [' '] ++ t.rest by simp,
    marked_skip hskip]
  exact t.plain.unmarked

/-- A mark would lie in the arguments of a call, or behind its closing bracket. -/
theorem Invocation.not_marked (f : Invocation) {s : Text} (h : ¬ Marked s) :
    ¬ Marked (f.name ++ '(' :: f.args ++ ')' :: s) := by
  have hskip : '*' ∉ f.name ++ ['('] := by
    simp only [List.mem_append, not_or]
    exact ⟨f.not_mem (by decide), by decide⟩
  rw [show f.name ++ '(' :: f.args ++ ')' :: s = f.name ++ ['('] ++ (f.args ++ ')' :: s) by simp,
    marked_skip hskip, Marked, infix_append_cons_iff waitMark_ne_nil (by decide), not_or]
  exact ⟨f.plain.unmarked, h⟩

theorem Entry.not_marked (e : Entry) : ¬ Marked e.text := by
  cases e with
  | delay t => exact t.not_marked
  | call f trail h =>
    refine f.not_marked (not_infix_of_not_mem (q := '*') ?_)
    exact h.not_mem (by decide) (by decide)
  | delayed f t =>
    have h : ¬ Marked ([' '] ++ (delayMark ++ t.seconds ++ ' ' :: t.rest)) := by
      rw [marked_skip (by decide)]
      exact t.not_marked
    simpa [Entry.text, callMark] using f.not_marked h

theorem strip_copies (n : Nat) (s : Text) : strip ((List.replicate n waitMark).flatten ++ s) = strip s := by
  induction n with
  | zero => rfl
  | succ n ih => rw [List.replicate_succ, List.flatten_cons, List.append_assoc, strip_mark, ih]

theorem strip_entry {indent : Text} (hi : Blanks indent) (marks : Nat) (e : Entry) :
    strip (Line.entry indent hi marks e).source = indent ++ e.text := by
  rw [Line.source, List.append_assoc, strip_skip (run_not_mem hi (by decide)), strip_copies,
    strip_of_not_marked e.not_marked]

theorem Timing.undelayed (t : Timing) : ¬ callMark <:+: t.seconds ++ ' ' :: t.rest := by
  have hskip : ')' ∉ t.seconds ++ [' '] := by
    simp only [List.mem_append, not_or]
    exact ⟨t.not_mem (by decide), by decide⟩
  rw [show t.seconds ++ ' ' :: t.rest = t.seconds ++ [' '] ++ t.rest by simp, callMark, infix_skip hskip]
  exact t.plain.undelayed

theorem not_delayedCall_delay {indent : Text} (hi : Blanks indent) (t : Timing) :
    ¬ DelayedCall (indent ++ delayMark ++ t.seconds ++ ' ' :: t.rest) := by
  intro h
  have hskip : ')' ∉ indent ++ delayMark := by
    simp only [List.mem_append, not_or]
    exact ⟨run_not_mem hi (by decide), by decide⟩
  have hm := h.holds_mark
  rw [List.append_assoc, callMark, infix_skip hskip] at hm
  exact t.undelayed hm

/-- Neither the arguments of a call nor the end of its line hold a delay. -/
theorem not_delayedCall_call {indent trail : Text} (hi : Blanks indent) (f : Invocation) (ht : LineEnd trail) :
    ¬ DelayedCall (indent ++ f.name ++ '(' :: f.args ++ ')' :: trail) := by
  intro h
  have hskip : ')' ∉ indent ++ f.name ++ ['('] := by
    simp only [List.mem_append, not_or]
    exact ⟨⟨run_not_mem hi (by decide), f.not_mem (by decide)⟩, by decide⟩
  have hcolon : ':' ∉ ')' :: trail := by
    simp only [List.mem_cons, not_or]
    exact ⟨by decide, ht.not_mem (by decide) (by decide)⟩
  have hm : ") Time delay".toList ++ [':', ' '] <:+: indent ++ f.name ++ '(' :: f.args ++ ')' :: trail :=
    h.holds_mark
  rw [infix_append_iff_of_last hcolon (by simp)] at hm
  have hargs : callMark <:+: indent ++ f.name ++ '(' :: f.args := hm
  rw [show indent ++ f.name ++ '(' :: f.args = indent ++ f.name ++ ['('] ++ f.args by simp, callMark,
    infix_skip hskip] at hargs
  exact f.plain.undelayed hargs

/-! ## The last four passes -/

theorem renormalize_indented {indent s : Text} (hi : Blanks indent) (hne : s ≠ [])
    (hs : ∀ c ∈ s.head?, isSpace c = false) : Pass.depths.rewriteLine (indent ++ s) = pad indent ++ s := by
  have hdepth : depth.length = 8 := by decide
  cases s with
  | nil => exact absurd rfl hne
  | cons c r =>
    have hc := hs c rfl
    unfold pad
    split
    · exact renormalize_shallow hi (by omega) hc
    · refine renormalize_eq_self ?_
      intro ⟨indent', c', r', hi', hd', hc', h⟩
      obtain ⟨rfl, -⟩ := run_unique (p := isBlank) h hi (fails_head (isBlank_eq_false hc) _) hi'
        (fails_head (isBlank_eq_false hc') _)
      omega

theorem finish_delay {indent : Text} (hi : Blanks indent) (t : Timing) :
    finish (indent ++ delayMark ++ t.seconds ++ ' ' :: t.rest) = warpOf indent t := by
  have hended : ¬ OpenStatement (indent ++ warpHead ++ t.seconds ++ [')', ';']) := by
    intro h
    have h' : OpenStatement (indent ++ warpHead ++ t.seconds ++ [')'] ++ ';' :: []) := by simpa using h
    obtain ⟨a, u, -, hu⟩ := (openStatement_skip (by decide) (by decide)).1 h'
    simp at hu
  have hcomma : ',' ∉ indent ++ warpHead ++ t.seconds ++ [')', ';'] := by
    simp only [List.mem_append, not_or]
    exact ⟨⟨⟨run_not_mem hi (by decide), by decide⟩, t.not_mem (by decide)⟩, by decide⟩
  have htyped : Pass.addresses.rewriteLine (indent ++ warpHead ++ t.seconds ++ [')', ';']) = _ :=
    typed_of_not_mem hcomma none
  have hindented := renormalize_indented (s := warpHead ++ (t.seconds ++ [')', ';'])) hi (by simp)
    (fails_head (c := 'v') (by decide) _)
  rw [finish, materialize_delay hi t.some_seconds t.isDigit, terminate_eq_self hended, htyped]
  simpa [warpOf] using hindented

theorem not_delay_call {indent name : Text} (hi : Blanks indent) (hn : IsCallName name) (s : Text) :
    ¬ Delay (indent ++ name ++ '(' :: s) := by
  intro hd
  obtain ⟨indent', seconds, rest, hi', -, -, h⟩ := hd
  rw [List.append_assoc, List.append_assoc, List.append_assoc] at h
  obtain ⟨-, h⟩ := run_unique (p := isBlank) h hi hn.not_blank hi' (fails_head (c := 'T') (by decide) _)
  -- the name of the call would be the first word of the mark, which no bracket follows
  have h' : name ++ '(' :: s = "Time".toList ++ ' ' :: ("delay: ".toList ++ (seconds ++ ' ' :: rest)) := h
  obtain ⟨-, h''⟩ := run_unique (p := isCallChar) h' hn.chars (fails_head (by decide) _)
    (List.all_eq_true.1 (by decide)) (fails_head (by decide) _)
  exact absurd (List.cons.inj h'').1 (by decide)

theorem typed_before {before before' : Option Char} (h : startsWord before = startsWord before') (s : Text) :
    typed before s = typed before' s := by
  cases s with
  | nil => rfl
  | cons c s =>
    by_cases ha : Argument before (c :: s)
    · obtain ⟨digits, r, hb, hne, hd, hs⟩ := ha
      rw [hs, typed_argument hb hne hd, typed_argument (h ▸ hb) hne hd]
    · have ha' : ¬ Argument before' (c :: s) := by simpa only [Argument, h] using ha
      rw [typed_kept ha, typed_kept ha']

theorem type_args (f : Invocation) : Pass.addresses.apply f.args = typed (some '(') f.args := by
  rw [Pass.apply, lines_of_not_mem f.plain.oneLine, List.map_singleton]
  exact typed_before (by decide) f.args

theorem type_call {indent trail : Text} (hi : Blanks indent) (f : Invocation) (ht : LineEnd trail) :
    Pass.addresses.rewriteLine (indent ++ f.name ++ '(' :: f.args ++ ')' :: ';' :: trail) =
      indent ++ f.name ++ '(' :: Pass.addresses.apply f.args ++ ')' :: ';' :: trail := by
  have hhead : ',' ∉ indent ++ f.name := by
    simp only [List.mem_append, not_or]
    exact ⟨run_not_mem hi (by decide), f.not_mem (by decide)⟩
  have htail : ',' ∉ ';' :: trail := by
    simp only [List.mem_cons, not_or]
    exact ⟨by decide, ht.not_mem (by decide) (by decide)⟩
  have hopen := typed_split (e := '(') (by decide) (by decide) (by decide) none (indent ++ f.name)
    (f.args ++ ')' :: ';' :: trail)
  have hclose := typed_split (e := ')') (by decide) (by decide) (by decide) (some '(') f.args (';' :: trail)
  rw [hclose, typed_of_not_mem hhead, typed_of_not_mem htail, ← type_args] at hopen
  show typed none _ = _
  simpa using hopen

theorem finish_call {indent trail : Text} (hi : Blanks indent) (f : Invocation) (ht : LineEnd trail) :
    finish (indent ++ f.name ++ '(' :: f.args ++ ')' :: trail) = callOf indent f trail := by
  have hdated : ¬ Delay (indent ++ f.name ++ '(' :: f.args ++ ')' :: trail) := by
    simpa using not_delay_call hi f.named (f.args ++ ')' :: trail)
  have hindented := renormalize_indented (s := f.name ++ '(' :: (Pass.addresses.apply f.args ++ ')' :: ';' :: trail)) hi
    (by simp) fun c hc => not_isSpace_of_isCallStart (f.named.head c hc)
  rw [finish, materialize_eq_self hdated, terminate_open ht, type_call hi f ht]
  simpa [callOf] using hindented

theorem finish_blank {indent : Text} (hi : Blanks indent) : finish indent = indent := by
  have hdated : ¬ Delay indent := by
    intro h
    obtain ⟨a, n, r, -, -, -, h⟩ := h
    refine run_not_mem hi (c := 'T') (by decide) ?_
    rw [h]
    exact List.mem_append_left _ (List.mem_append_left _ (List.mem_append_right _ (by decide)))
  have hended : ¬ OpenStatement indent := by
    intro h
    obtain ⟨a, t, -, h⟩ := h
    refine run_not_mem hi (c := ')') (by decide) ?_
    simp [h]
  have htyped : ¬ BareAddress indent := by
    intro h
    obtain ⟨a, r, ⟨digits, r', -, -, -, hr⟩, h⟩ := h
    refine run_not_mem hi (c := '0') (by decide) ?_
    simp [h, hr]
  have hindented : ¬ Shallow indent := by
    intro h
    obtain ⟨a, c, r, -, -, hc, h⟩ := h
    refine run_not_mem hi (isBlank_eq_false hc) ?_
    simp [h]
  rw [finish, materialize_eq_self hdated, terminate_eq_self hended, type_eq_self htyped, renormalize_eq_self hindented]

/-! ## Traces -/

theorem statements_source (l : Line) : Trace.statements l.source = l.output := by
  cases l with
  | blank indent hi =>
    have hd : ¬ DelayedCall indent := by
      intro h
      exact not_infix_of_not_mem (run_not_mem hi (by decide)) h.holds_mark
    have hm : ¬ Marked indent := not_infix_of_not_mem (q := '*') (run_not_mem hi (by decide))
    rw [statements, Line.source, strip_of_not_marked hm, lines_reorder_eq_self hd (run_not_mem hi (by decide)),
      List.map_singleton, finish_blank hi]
    rfl
  | entry indent hi marks e =>
    have hn : '\n' ∉ indent ++ e.text := by
      simp only [List.mem_append, not_or]
      exact ⟨run_not_mem hi (by decide), e.oneLine⟩
    rw [statements, strip_entry]
    cases e with
    | delay t =>
      have htext : indent ++ (Entry.delay t).text = indent ++ delayMark ++ t.seconds ++ ' ' :: t.rest := by
        simp [Entry.text]
      rw [htext] at hn ⊢
      rw [lines_reorder_eq_self (not_delayedCall_delay hi t) hn, List.map_singleton, finish_delay hi t]
      rfl
    | call f trail ht =>
      have htext : indent ++ (Entry.call f trail ht).text = indent ++ f.name ++ '(' :: f.args ++ ')' :: trail := by
        simp [Entry.text]
      rw [htext] at hn ⊢
      rw [lines_reorder_eq_self (not_delayedCall_call hi f ht) hn, List.map_singleton, finish_call hi f ht]
      rfl
    | delayed f t =>
      have htext : indent ++ (Entry.delayed f t).text =
          indent ++ f.name ++ '(' :: f.args ++ callMark ++ (t.seconds ++ ' ' :: t.rest) := by
        simp [Entry.text]
      have hend : LineEnd [] := ⟨[], by simp [Blanks], .inl rfl⟩
      rw [htext] at hn ⊢
      rw [lines_reorder hi f.named t.undelayed hn, List.map_cons, List.map_singleton, ← List.append_assoc,
        finish_delay hi t, finish_call (blanks_append hi blanks_level) f hend]
      rfl

/-- A well-formed trace becomes the outputs of its lines, one below the other. -/
theorem transform_wellFormed (ls : List Line) :
    transform (unlines (ls.map Line.source)) = ⟨unlines (ls.flatMap Line.output)⟩ := by
  rw [text_inj]
  cases ls with
  | nil => decide
  | cons l ls =>
    have hlines : lines (unlines ((l :: ls).map Line.source)) = (l :: ls).map Line.source := by
      refine lines_unlines_of_not_mem (by simp) fun m hm => ?_
      obtain ⟨k, -, rfl⟩ := List.mem_map.1 hm
      exact k.oneLine
    have houtput : (lines (unlines ((l :: ls).map Line.source))).flatMap statements =
        (l :: ls).flatMap Line.output := by
      rw [hlines, List.flatMap_map]
      exact congrArg (fun f => (l :: ls).flatMap f) (funext statements_source)
    rw [← unlines_lines (transform _).text, lines_transform, houtput]

theorem transform_wellFormed_of_each_kind :
    ∃ ls : List Line,
      ls.map Line.source = [" \t".toList, "*wait* *wait* Time delay: 4 s".toList, "         f(0xA,1) \r".toList,
        "  *wait* M.buy((0xAB,1)) Time delay: 30 s".toList] ∧
      ls.flatMap Line.output = [" \t".toList, "        vm.warp(block.timestamp + 4);".toList,
        "         f(address(0xA),1); \r".toList, "        vm.warp(block.timestamp + 30);".toList,
        "        M.buy((address(0xAB),1));".toList] ∧
      transform (unlines (ls.map Line.source)) = ⟨unlines (ls.flatMap Line.output)⟩ := by
  have hplain : ∀ s : Text, '\n' ∉ s ∧ ¬ waitMark <:+: s ∧ ¬ callMark <:+: s → Plain s := fun s h => ⟨h.1, h.2.1, h.2.2⟩
  have hall : ∀ (p : Char → Bool) (s : Text), s.all p = true → ∀ c ∈ s, p c = true := fun p s h => List.all_eq_true.1 h
  let four : Timing := ⟨['4'], ['s'], by decide, hall _ _ (by decide), hplain _ (by decide +kernel)⟩
  let thirty : Timing := ⟨['3', '0'], ['s'], by decide, hall _ _ (by decide), hplain _ (by decide +kernel)⟩
  let f : Invocation := ⟨['f'], "0xA,1".toList, ⟨by decide, hall _ _ (by decide)⟩, hplain _ (by decide +kernel)⟩
  let buy : Invocation :=
    ⟨"M.buy".toList, "(0xAB,1)".toList, ⟨by decide, hall _ _ (by decide)⟩, hplain _ (by decide +kernel)⟩
  have hend : LineEnd [' ', '\r'] := ⟨[' '], hall _ _ (by decide), .inr rfl⟩
  let ls : List Line := [.blank [' ', '\t'] (hall _ _ (by decide)), .entry [] (hall _ _ (by decide)) 2 (.delay four),
    .entry (List.replicate 9 ' ') (hall _ _ (by decide)) 0 (.call f _ hend),
    .entry [' ', ' '] (hall _ _ (by decide)) 1 (.delayed buy thirty)]
  exact ⟨ls, rfl, rfl, transform_wellFormed ls⟩

end Replay.Trace
