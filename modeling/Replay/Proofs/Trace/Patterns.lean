/-
  Replay.Proofs.Trace.Patterns — the lines that the rules match, and what they make of them.

  For every rule there is the shape of a line in which it finds something, said by the
  parts of the line and not by the rule: a wait mark somewhere (`Marked`), a call with a
  delay behind it (`DelayedCall`), a delay on a line of its own (`Delay`), a closing
  bracket at the end (`OpenStatement`), a hexadecimal argument (`BareAddress`), too little
  indentation (`Shallow`). A line of no such shape is left as it is, a line of the shape
  is rewritten from its parts.

  Proved here, for all rules but `addresses`: `strip_of_not_marked`, `reorder_of_last`,
  `reorder_eq_self`, `materialize_delay`, `materialize_eq_self`, `terminate_open`,
  `terminate_eq_self`, `renormalize_shallow`, `renormalize_eq_self`.
-/

import Replay.Proofs.Trace.Rewriting
import Replay.Trace.Pipeline

namespace Replay.Trace

open Text Pass

/-! ## Parts of a line -/

def Blanks (s : Text) : Prop := ∀ c ∈ s, isBlank c = true

/-- A letter or low line, then letters, digits, low lines and dots. -/
def IsCallName : Text → Prop
  | [] => False
  | c :: r => isCallStart c = true ∧ ∀ d ∈ r, isCallChar d = true

/-- Blanks, and possibly one carriage return after them. -/
def LineEnd (s : Text) : Prop := ∃ blanks, Blanks blanks ∧ (s = blanks ∨ s = blanks ++ ['\r'])

/-- The end of a call that a delay follows. -/
def callMark : Text := ')' :: ' ' :: delayMark

/-! ## Shapes -/

def Marked (s : Text) : Prop := waitMark <:+: s

def DelayedCall (s : Text) : Prop :=
  ∃ indent name args delay, Blanks indent ∧ IsCallName name ∧
    s = indent ++ name ++ '(' :: args ++ callMark ++ delay

def Delay (s : Text) : Prop :=
  ∃ indent seconds rest, Blanks indent ∧ seconds ≠ [] ∧ (∀ c ∈ seconds, isDigit c = true) ∧
    s = indent ++ delayMark ++ seconds ++ ' ' :: rest

def OpenStatement (s : Text) : Prop := ∃ a t, LineEnd t ∧ s = a ++ ')' :: t

/-- A hexadecimal argument begins here: no word character before it, a comma behind it. -/
def Argument (before : Option Char) (s : Text) : Prop :=
  ∃ digits r, startsWord before = true ∧ digits ≠ [] ∧ (∀ c ∈ digits, isHex c = true) ∧
    s = '0' :: 'x' :: digits ++ ',' :: r

def BareAddress (s : Text) : Prop := ∃ a r, Argument a.getLast? r ∧ s = a ++ r

def Shallow (s : Text) : Prop :=
  ∃ indent c r, Blanks indent ∧ indent.length < depth.length ∧ isSpace c = false ∧
    s = indent ++ c :: r

/-! ## Characters -/

theorem isBlank_iff {c : Char} : isBlank c = true ↔ c = ' ' ∨ c = '\t' := by simp [isBlank]

theorem isBlank_eq_false {c : Char} (h : isSpace c = false) : isBlank c = false := by
  cases hb : isBlank c with
  | false => rfl
  | true => rw [isSpace_of_isBlank hb] at h; cases h

theorem isCallStart_range {c : Char} (h : isCallStart c = true) :
    65 ≤ c.toNat ∧ c.toNat ≤ 122 := by
  simp only [isCallStart, isLetter, Bool.or_eq_true, Bool.and_eq_true, decide_eq_true_eq, Char.le_def,
    UInt32.le_iff_toNat_le] at h
  rcases h with (⟨h1, h2⟩ | ⟨h1, h2⟩) | rfl
  · exact ⟨Nat.le_trans (by decide) h1, h2⟩
  · exact ⟨h1, Nat.le_trans h2 (by decide)⟩
  · decide

theorem not_isSpace_of_isCallStart {c : Char} (h : isCallStart c = true) : isSpace c = false := by
  have hc := isCallStart_range h
  exact isSpace_eq_false (by omega)

/-! ## Wait marks -/

theorem waitMark_ne_nil : waitMark ≠ [] := by decide

theorem waits_eq_none_iff {before : Option Char} {s : Text} :
    Trace.waits before s = none ↔ ¬ waitMark <+: s := by
  simp [Trace.waits, after?_eq_none_iff]

theorem silent_waits_iff {before : Option Char} {s : Text} :
    Silent Trace.waits before s ↔ ¬ Marked s := by
  induction s generalizing before with
  | nil => simpa [Silent, Marked] using waitMark_ne_nil
  | cons c s ih => simp only [Silent, ih, Marked, List.infix_cons_iff, waits_eq_none_iff, not_or]

theorem marked_skip {a s : Text} (h : '*' ∉ a) : Marked (a ++ s) ↔ Marked s :=
  infix_skip h

/-- The line without its wait marks. -/
def strip (line : Text) : Text := Pass.waits.rewriteLine line

/-- Wait marks are removed whatever stands before them. -/
theorem rewrite_waits (before : Option Char) (s : Text) : rewrite Trace.waits before s = strip s := by
  suffices ∀ (b b' : Option Char) (skip : Nat), sweepFrom Trace.waits b skip s = sweepFrom Trace.waits b' skip s by
    rw [rewrite, this before none 0]
    rfl
  induction s with
  | nil => intro b b' skip; simp [sweepFrom]
  | cons c s ih =>
    intro b b' skip
    cases skip with
    | succ k => simp only [sweepFrom]
    | zero =>
      simp only [sweepFrom]
      rw [show Trace.waits b (c :: s) = Trace.waits b' (c :: s) from rfl]

theorem strip_of_not_marked {s : Text} (h : ¬ Marked s) : strip s = s :=
  rewrite_of_silent (silent_waits_iff.2 h)

theorem strip_cons {c : Char} {s : Text} (h : ¬ waitMark <+: c :: s) : strip (c :: s) = c :: strip s := by
  have hnone : Trace.waits none (c :: s) = none := waits_eq_none_iff.2 h
  exact (rewrite_kept hnone).trans (by rw [rewrite_waits])

theorem strip_mark (s : Text) : strip (waitMark ++ s) = strip s := by
  have hw : Trace.waits none (waitMark ++ s) = some ⟨6, []⟩ := by
    rw [Trace.waits, after?_eq_some_iff.2 rfl]
    rfl
  exact (rewrite_found (t := "wait* ".toList) hw).trans (rewrite_waits _ _)

theorem strip_skip {a : Text} (h : '*' ∉ a) (s : Text) : strip (a ++ s) = a ++ strip s := by
  induction a with
  | nil => rfl
  | cons c a ih =>
    simp only [List.mem_cons, not_or] at h
    have hc : ¬ waitMark <+: c :: (a ++ s) := fun hp => h.1 (List.cons_prefix_cons.1 hp).1
    rw [List.cons_append, strip_cons hc, ih h.2]
    rfl

/-! ## Calls -/

theorem callHead?_of_isCallName {name args : Text} (h : IsCallName name) :
    callHead? (name ++ '(' :: args) = some (name ++ ['('], args) := by
  cases name with
  | nil => exact absurd h id
  | cons c r =>
    have hp := fails_head (p := isCallChar) (c := '(') (by decide) args
    simp only [callHead?, List.cons_append, h.1, if_true, takeWhile_run h.2 hp, dropWhile_run h.2 hp]

theorem exists_isCallName {s head args : Text} (h : callHead? s = some (head, args)) :
    ∃ name, IsCallName name ∧ head = name ++ ['('] ∧ s = name ++ '(' :: args := by
  cases s with
  | nil => simp [callHead?] at h
  | cons c r =>
    obtain ⟨run, rest, rfl, hrun, hrest⟩ := exists_run isCallChar r
    simp only [callHead?, takeWhile_run hrun hrest, dropWhile_run hrun hrest] at h
    split at h
    · next hc =>
      split at h
      · simp only [Option.some.injEq, Prod.mk.injEq] at h
        obtain ⟨rfl, rfl⟩ := h
        exact ⟨c :: run, ⟨hc, hrun⟩, rfl, rfl⟩
      · cases h
    · cases h

theorem IsCallName.head {name s : Text} (h : IsCallName name) :
    ∀ c ∈ (name ++ s).head?, isCallStart c = true := by
  cases name with
  | nil => exact absurd h id
  | cons d r => simpa using h.1

theorem IsCallName.not_blank {name s : Text} (h : IsCallName name) :
    ∀ c ∈ (name ++ s).head?, isBlank c = false := fun c hc =>
  isBlank_eq_false (not_isSpace_of_isCallStart (h.head c hc))

/-- The split at the last delay, the line's other parts as they are. -/
theorem delays_of_last {indent name args delay : Text} (hi : Blanks indent) (hn : IsCallName name)
    (hlast : ¬ callMark <:+: delay) :
    Trace.delays none (indent ++ name ++ '(' :: args ++ callMark ++ delay) =
      some (whole (indent ++ name ++ '(' :: args ++ callMark ++ delay)
        (indent ++ delayMark ++ delay ++ '\n' :: indent ++ level ++ name ++ '(' :: args ++ [')'])) := by
  have hb := hn.not_blank (s := '(' :: (args ++ (callMark ++ delay)))
  have hcut : cutLast callMark (args ++ (callMark ++ delay)) = some (args, callMark ++ delay) := by
    refine cutLast_of_last (List.prefix_append _ _) (by simp [callMark]) ?_
    show ¬ callMark <:+: ' ' :: delayMark ++ delay
    rwa [callMark, infix_skip (by decide)]
  simp only [Trace.delays, List.append_assoc, List.cons_append, takeWhile_run hi hb, dropWhile_run hi hb,
    callHead?_of_isCallName hn, Option.bind_eq_bind, Option.bind_some]
  rw [← callMark, hcut]
  simp [callMark]

/-- Of several delays behind a call, one is the last. -/
theorem DelayedCall.exists_last {s : Text} (h : DelayedCall s) :
    ∃ indent name args delay, Blanks indent ∧ IsCallName name ∧ ¬ callMark <:+: delay ∧
      s = indent ++ name ++ '(' :: args ++ callMark ++ delay := by
  obtain ⟨indent, name, args, delay, hi, hn, rfl⟩ := h
  obtain ⟨a, r, hr, hlast⟩ := exists_cutLast (s := args ++ callMark ++ delay) (by simp [callMark] : callMark ≠ [])
    ⟨args, delay, rfl⟩
  refine ⟨indent, name, a, r, hi, hn, ?_, ?_⟩
  · intro hm
    exact hlast (List.infix_append_of_infix_right hm)
  · simp only [List.append_assoc, List.cons_append] at hr ⊢
    rw [hr]

theorem delays_eq_none_iff {s : Text} : Trace.delays none s = none ↔ ¬ DelayedCall s := by
  constructor
  · intro h hd
    obtain ⟨indent, name, args, delay, hi, hn, hlast, rfl⟩ := hd.exists_last
    rw [delays_of_last hi hn hlast] at h
    cases h
  · intro h
    rw [Option.eq_none_iff_forall_ne_some]
    intro f hf
    apply h
    obtain ⟨indent, rest, rfl, hi, hr⟩ := exists_run isBlank s
    simp only [Trace.delays, takeWhile_run hi hr, dropWhile_run hi hr, Option.bind_eq_bind, Option.bind_eq_some_iff] at hf
    obtain ⟨⟨head, inner⟩, hhead, ⟨args, delay⟩, hcut, -⟩ := hf
    obtain ⟨name, hn, -, rfl⟩ := exists_isCallName hhead
    obtain ⟨args, delay, rfl⟩ : callMark <:+: inner := by
      apply Classical.byContradiction
      intro hm
      rw [← cutLast_eq_none_iff (by simp [callMark]), callMark, hcut] at hm
      cases hm
    exact ⟨indent, name, args, delay, hi, hn, by simp⟩

theorem delays_anchored (c : Char) (s : Text) : Trace.delays (some c) s = none := rfl

theorem reorder_of_last {indent name args delay : Text} (hi : Blanks indent) (hn : IsCallName name)
    (hlast : ¬ callMark <:+: delay) :
    Pass.delays.rewriteLine (indent ++ name ++ '(' :: args ++ callMark ++ delay) =
      indent ++ delayMark ++ delay ++ '\n' :: indent ++ level ++ name ++ '(' :: args ++ [')'] :=
  rewrite_whole delays_anchored (by simp) (delays_of_last hi hn hlast)

theorem reorder_eq_self {s : Text} (h : ¬ DelayedCall s) : Pass.delays.rewriteLine s = s :=
  rewrite_unmatched delays_anchored (delays_eq_none_iff.2 h)

/-! ## Delays -/

theorem warps_of_delay {indent seconds rest : Text} (hi : Blanks indent) (hne : seconds ≠ [])
    (hs : ∀ c ∈ seconds, isDigit c = true) :
    Trace.warps none (indent ++ delayMark ++ seconds ++ ' ' :: rest) =
      some (whole (indent ++ delayMark ++ seconds ++ ' ' :: rest) (indent ++ warpHead ++ seconds ++ [')', ';'])) := by
  have hb : ∀ c ∈ (delayMark ++ (seconds ++ ' ' :: rest)).head?, isBlank c = false :=
    fails_head (p := isBlank) (c := 'T') (by decide) _
  have hd := fails_head (p := isDigit) (c := ' ') (by decide) rest
  simp only [Trace.warps, List.append_assoc, takeWhile_run hi hb, dropWhile_run hi hb,
    after?_eq_some_iff.2 (rfl : delayMark ++ (seconds ++ ' ' :: rest) = _), Option.bind_eq_bind,
    Option.bind_some, ↓guard_bind, takeWhile_run hs hd, dropWhile_run hs hd]
  cases seconds with
  | nil => exact absurd rfl hne
  | cons c r => rfl

theorem warps_eq_none_iff {s : Text} : Trace.warps none s = none ↔ ¬ Delay s := by
  constructor
  · intro h hd
    obtain ⟨indent, seconds, rest, hi, hne, hs, rfl⟩ := hd
    rw [warps_of_delay hi hne hs] at h
    cases h
  · intro h
    rw [Option.eq_none_iff_forall_ne_some]
    intro f hf
    apply h
    obtain ⟨indent, r, rfl, hi, hr⟩ := exists_run isBlank s
    simp only [Trace.warps, takeWhile_run hi hr, dropWhile_run hi hr, ↓guard_bind, Option.bind_eq_bind,
      Option.bind_eq_some_iff, Option.ite_none_right_eq_some] at hf
    obtain ⟨rest, hrest, hguard, -⟩ := hf
    obtain rfl := after?_eq_some_iff.1 hrest
    obtain ⟨seconds, rest, rfl, hs, hd⟩ := exists_run isDigit rest
    simp only [takeWhile_run hs hd, dropWhile_run hs hd, Bool.and_eq_true, Bool.not_eq_true',
      List.isEmpty_eq_false_iff, decide_eq_true_eq] at hguard
    obtain ⟨hne, hspace⟩ := hguard
    cases rest with
    | nil => cases hspace
    | cons c rest =>
      obtain rfl := Option.some.inj hspace
      exact ⟨indent, seconds, rest, hi, hne, hs, by simp⟩

theorem warps_anchored (c : Char) (s : Text) : Trace.warps (some c) s = none := rfl

theorem materialize_delay {indent seconds rest : Text} (hi : Blanks indent) (hne : seconds ≠ [])
    (hs : ∀ c ∈ seconds, isDigit c = true) :
    Pass.warps.rewriteLine (indent ++ delayMark ++ seconds ++ ' ' :: rest) =
      indent ++ warpHead ++ seconds ++ [')', ';'] :=
  rewrite_whole warps_anchored (by simp) (warps_of_delay hi hne hs)

theorem materialize_eq_self {s : Text} (h : ¬ Delay s) : Pass.warps.rewriteLine s = s :=
  rewrite_unmatched warps_anchored (warps_eq_none_iff.2 h)

/-! ## Statement ends -/

theorem LineEnd.not_mem {s : Text} (h : LineEnd s) {c : Char} (hb : isBlank c = false) (hr : c ≠ '\r') : c ∉ s := by
  obtain ⟨blanks, hbl, rfl | rfl⟩ := h
  · exact run_not_mem hbl hb
  · simpa [hr] using run_not_mem hbl hb

theorem isLineEnd_iff {s : Text} : isLineEnd s = true ↔ LineEnd s := by
  constructor
  · intro h
    obtain ⟨blanks, rest, rfl, hb, hr⟩ := exists_run isBlank s
    simp only [isLineEnd, dropWhile_run hb hr] at h
    split at h
    · exact ⟨blanks, hb, .inl (List.append_nil _)⟩
    · exact ⟨blanks, hb, .inr rfl⟩
    · cases h
  · intro h
    obtain ⟨blanks, hb, rfl | rfl⟩ := h
    · have hdrop : s.dropWhile isBlank = [] := by
        simpa using dropWhile_run hb (by simp : ∀ c ∈ ([] : Text).head?, isBlank c = false)
      rw [isLineEnd, hdrop]
    · have hdrop : (blanks ++ ['\r']).dropWhile isBlank = ['\r'] := dropWhile_run hb (fails_head (by decide) [])
      rw [isLineEnd, hdrop]
      rfl

theorem ends_eq_none_iff {before : Option Char} {c : Char} {s : Text} :
    Trace.ends before (c :: s) = none ↔ ¬ (c = ')' ∧ LineEnd s) := by
  by_cases hc : c = ')'
  · subst hc
    simp [Trace.ends, isLineEnd_iff]
  · simp [Trace.ends, hc]

theorem openStatement_cons {c : Char} {s : Text} :
    OpenStatement (c :: s) ↔ (c = ')' ∧ LineEnd s) ∨ OpenStatement s := by
  constructor
  · intro h
    obtain ⟨a, t, ht, h⟩ := h
    cases a with
    | nil =>
      obtain ⟨rfl, rfl⟩ := List.cons.inj h
      exact .inl ⟨rfl, ht⟩
    | cons d a => exact .inr ⟨a, t, ht, (List.cons.inj h).2⟩
  · intro h
    rcases h with ⟨rfl, hs⟩ | ⟨a, t, ht, rfl⟩
    · exact ⟨[], s, hs, rfl⟩
    · exact ⟨c :: a, t, ht, rfl⟩

theorem silent_ends_iff {before : Option Char} {s : Text} :
    Silent Trace.ends before s ↔ ¬ OpenStatement s := by
  induction s generalizing before with
  | nil => simp [Silent, OpenStatement]
  | cons c s ih => rw [Silent, ih, ends_eq_none_iff, openStatement_cons, not_or]

theorem terminate_eq_self {s : Text} (h : ¬ OpenStatement s) : Pass.ends.rewriteLine s = s :=
  rewrite_of_silent (silent_ends_iff.2 h)

theorem terminate_open {a t : Text} (ht : LineEnd t) :
    Pass.ends.rewriteLine (a ++ ')' :: t) = a ++ ')' :: ';' :: t := by
  suffices ∀ before, rewrite Trace.ends before (a ++ ')' :: t) = a ++ ')' :: ';' :: t from this none
  induction a with
  | nil =>
    intro before
    have hf : Trace.ends before (')' :: t ++ []) = some ⟨t.length, ')' :: ';' :: t⟩ := by
      simp [Trace.ends, isLineEnd_iff.2 ht, whole]
    simpa using rewrite_found hf
  | cons c a ih =>
    intro before
    -- a closing bracket further on keeps this one from ending the line
    have hc : ¬ (c = ')' ∧ LineEnd (a ++ ')' :: t)) := by
      intro h
      obtain ⟨-, h⟩ := h
      exact h.not_mem (c := ')') (by decide) (by decide) (by simp)
    rw [List.cons_append, rewrite_kept (ends_eq_none_iff.2 hc), ih]
    rfl

/-! ## Indentation -/

theorem depths_anchored (c : Char) (s : Text) : Trace.depths (some c) s = none := rfl

theorem depths_of_shallow {indent r : Text} {c : Char} (hi : Blanks indent) (hd : indent.length < depth.length)
    (hc : isSpace c = false) : Trace.depths none (indent ++ c :: r) = some ⟨indent.length, depth ++ [c]⟩ := by
  have hr := fails_head (isBlank_eq_false hc) r
  simp only [Trace.depths, takeWhile_run hi hr, dropWhile_run hi hr]
  rw [if_pos (by simp [hd, hc])]

theorem depths_eq_none_iff {s : Text} : Trace.depths none s = none ↔ ¬ Shallow s := by
  constructor
  · intro h hs
    obtain ⟨indent, c, r, hi, hd, hc, rfl⟩ := hs
    rw [depths_of_shallow hi hd hc] at h
    cases h
  · intro h
    obtain ⟨indent, rest, rfl, hi, hr⟩ := exists_run isBlank s
    simp only [Trace.depths, takeWhile_run hi hr, dropWhile_run hi hr]
    cases rest with
    | nil => rfl
    | cons c r =>
      refine if_neg fun hs => h ?_
      simp only [Bool.and_eq_true, decide_eq_true_eq, Bool.not_eq_true'] at hs
      exact ⟨indent, c, r, hi, hs.1, hs.2, rfl⟩

theorem renormalize_shallow {indent r : Text} {c : Char} (hi : Blanks indent) (hd : indent.length < depth.length)
    (hc : isSpace c = false) : Pass.depths.rewriteLine (indent ++ c :: r) = depth ++ c :: r := by
  have hf := depths_of_shallow (r := r) hi hd hc
  show rewrite Trace.depths none _ = _
  cases indent with
  | nil => simpa using rewrite_anchored (t := []) depths_anchored hf
  | cons b indent =>
    have hf' : Trace.depths none (b :: (indent ++ [c]) ++ r) = some ⟨(indent ++ [c]).length, depth ++ [c]⟩ := by
      simpa using hf
    simpa using rewrite_anchored depths_anchored hf'

theorem renormalize_eq_self {s : Text} (h : ¬ Shallow s) : Pass.depths.rewriteLine s = s :=
  rewrite_unmatched depths_anchored (depths_eq_none_iff.2 h)

end Replay.Trace
