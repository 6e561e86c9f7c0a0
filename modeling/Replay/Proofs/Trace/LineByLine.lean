/-
  Replay.Proofs.Trace.LineByLine — the pipeline on one line and on many.

  A pass is written as an expression that replaces its matches in the whole text. No match
  reaches a line feed and none looks past one, so a text is replaced line by line, and on a
  line the expression finds what the rule of the pass does. The pipeline then makes the
  statements of a trace from its lines, one line at a time: two of a line that is a delayed
  call without its wait marks, and one of any other.

  Proved here: `replaceAll_eq_apply`, `matches_delays_iff`, `transform_line_by_line`.
-/

import Replay.Proofs.Trace.Expressions
import Replay.Proofs.Trace.Lines

namespace Replay.Trace

open Text Pass

/-- Every match replaced, from left to right. -/
def replaceAll (e : Expression) (s : Text) : Text := rewrite e.rule none s

theorem replaceAll_append_newline {e : Expression} (h : e.pattern.oneLine = true) (a b : Text) :
    replaceAll e (a ++ '\n' :: b) = replaceAll e a ++ '\n' :: replaceAll e b := by
  have hstops := Expression.stopsAt h
  rw [replaceAll, rewrite, hstops.sweepFrom_append (Nat.zero_le _), hstops.sweepFrom_behind, List.flatMap_append]
  rfl

theorem sweepFrom_of_spells {e : Expression} {rule : Rule Text} (h : Spells e rule) {before : Option Char} {skip : Nat}
    {s : Text} (hb : before ≠ some '\n') (hn : '\n' ∉ s) :
    sweepFrom e.rule before skip s = sweepFrom rule before skip s := by
  induction s generalizing before skip with
  | nil => cases skip <;> rfl
  | cons c s ih =>
    have hrule := h before (c :: s) hb hn
    simp only [List.mem_cons, not_or] at hn
    have hc : some c ≠ some '\n' := fun h => hn.1 (Option.some.inj h).symm
    cases skip with
    | succ k => exact ih hc hn.2
    | zero =>
      simp only [sweepFrom, hrule]
      split
      · rw [ih hc hn.2]
      · rw [ih hc hn.2]

/-- An expression that spells the rule of a pass does on a whole text what the pass does. -/
theorem replaceAll_eq_apply {e : Expression} {p : Pass} (h : e.pattern.oneLine = true) (hs : Spells e p.rule)
    (s : Text) : replaceAll e s = p.apply s := by
  have hline : ∀ l, '\n' ∉ l → replaceAll e l = p.apply l := by
    intro l hl
    rw [replaceAll, rewrite, sweepFrom_of_spells hs (by simp) hl, Pass.apply, lines_of_not_mem hl]
    rfl
  refine lines_induction (P := fun s => replaceAll e s = p.apply s) hline ?more s
  case more =>
    intro l s hl ih
    rw [replaceAll_append_newline h, Pass.apply_append_newline, hline l hl, ih]

/-- The passes, as they are written. -/
def expressions : List (Pass × Expression) :=
  [(.waits, waitsExpression), (.delays, delaysExpression), (.warps, warpsExpression), (.ends, endsExpression),
    (.addresses, addressesExpression), (.depths, depthsExpression)]

theorem oneLine_and_spells {p : Pass} {e : Expression} (h : (p, e) ∈ expressions) :
    e.pattern.oneLine = true ∧ Spells e p.rule := by
  simp only [expressions, List.mem_cons, Prod.mk.injEq, List.not_mem_nil, or_false] at h
  rcases h with ⟨rfl, rfl⟩ | ⟨rfl, rfl⟩ | ⟨rfl, rfl⟩ | ⟨rfl, rfl⟩ | ⟨rfl, rfl⟩ | ⟨rfl, rfl⟩
  · exact ⟨by decide, spells_waits⟩
  · exact ⟨by decide, spells_delays⟩
  · exact ⟨by decide, spells_warps⟩
  · exact ⟨by decide, spells_ends⟩
  · exact ⟨by decide, spells_addresses⟩
  · exact ⟨by decide, spells_depths⟩

theorem matches_delays_iff {l : Text} (hn : '\n' ∉ l) : delaysExpression.Matches l ↔ DelayedCall l := by
  constructor
  · intro h
    obtain ⟨a, t, r, rfl, ht⟩ := h
    obtain ⟨hstart, hd⟩ := delays_takes ht
    cases ha : a.getLast? with
    | none =>
      rw [List.getLast?_eq_none_iff.1 ha]
      exact hd
    | some c =>
      rw [ha] at hstart
      have hc : c = '\n' := by simpa [atLineStart] using hstart
      have hmem := List.mem_of_getLast? ha
      rw [hc] at hmem
      exact absurd (List.mem_append_left _ hmem) hn
  · intro h
    have hrule := spells_delays none l (by simp) hn
    apply Classical.byContradiction
    intro hm
    have hnone : delaysExpression.rule none l = none :=
      Expression.rule_eq_none_iff.2 fun t r hs ht => hm ⟨[], t, r, hs, ht⟩
    rw [hnone] at hrule
    exact delays_eq_none_iff.1 hrule.symm h

theorem length_statements {l : Text} (hn : '\n' ∉ l) :
    (DelayedCall (strip l) → (statements l).length = 2) ∧ (¬ DelayedCall (strip l) → (statements l).length = 1) := by
  have hs := newline_not_mem_strip hn
  rw [statements, List.length_map]
  constructor
  · exact fun h => length_lines_reorder h hs
  · intro h
    rw [lines_reorder_eq_self h hs]
    rfl

/-- A trace is rewritten line by line. Every pass replaces its matches in the whole text, and does so on each side of
    a line feed as if the other side were not there. A line without its wait marks makes two lines if it is a delayed
    call, and one if not. -/
theorem transform_line_by_line :
    expressions.map Prod.fst = pipeline ∧
      (∀ p e, (p, e) ∈ expressions → (∀ s, p.apply s = replaceAll e s) ∧
        ∀ a b, p.apply (a ++ '\n' :: b) = p.apply a ++ '\n' :: p.apply b) ∧
      (∀ a b, (transform (a ++ '\n' :: b)).text = (transform a).text ++ '\n' :: (transform b).text) ∧
      ∀ l, '\n' ∉ l →
        (delaysExpression.Matches (replaceAll waitsExpression l) → (lines (transform l).text).length = 2) ∧
          (¬ delaysExpression.Matches (replaceAll waitsExpression l) → (lines (transform l).text).length = 1) := by
  have hpass : ∀ p e, (p, e) ∈ expressions → ∀ s, p.apply s = replaceAll e s := by
    intro p e h s
    obtain ⟨hline, hspells⟩ := oneLine_and_spells h
    exact (replaceAll_eq_apply hline hspells s).symm
  refine ⟨rfl, fun p e h => ⟨hpass p e h, ?_⟩, ?_, ?_⟩
  · intro a b
    simp only [hpass p e h]
    exact replaceAll_append_newline (oneLine_and_spells h).1 a b
  · exact transform_append_newline
  · intro l hn
    have hstrip : replaceAll waitsExpression l = strip l := by
      have hwaits := hpass .waits waitsExpression List.mem_cons_self l
      rw [← hwaits, Pass.apply, lines_of_not_mem hn]
      rfl
    rw [hstrip, matches_delays_iff (newline_not_mem_strip hn), lines_transform, lines_of_not_mem hn,
      List.flatMap_singleton]
    exact length_statements hn

end Replay.Trace
