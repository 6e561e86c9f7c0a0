/-
  Replay.Proofs.Trace.MatchedLines — how many lines a pass rewrites.

  A pass counts while it goes over its matches in the whole text, from left to right. A
  match is on the line with as many line feeds in front of it, and of the lines only the
  last is remembered: a match counts if it is on another one. No match reaches over a line
  feed, so the matches of a line follow one another and those of a later line come behind
  them, and every line with a match counts once. What a pass writes in place of a match is
  never the line it had: it removes a `*`, makes two lines of one, or leaves a line in
  which it finds nothing.

  Proved here: `changes_line`, `countLines_eq_matchedLines`, `silent_of_rewriteLine_eq`,
  `matchedLines_le_lineCount`, `matchedLines_exact`.
-/

import Replay.Proofs.Trace.LineByLine

namespace Replay

open Text

namespace Pass

/-! ## Lines without a match -/

theorem silent_iff_unmatched {rule : Rule Text} {before : Option Char} {s : Text} :
    Silent rule before s ↔ (sweepFrom rule before 0 s).filterMap found? = [] := by
  constructor
  · intro h
    rw [silent_iff_kept.1 h, List.filterMap_eq_nil_iff, List.forall_mem_map]
    exact fun _ _ => rfl
  · intro h
    induction s generalizing before with
    | nil => trivial
    | cons c s ih =>
      cases hr : rule before (c :: s) with
      | some f => simp [sweepFrom, hr, found?] at h
      | none =>
        rw [sweepFrom_kept hr] at h
        exact ⟨hr, ih h⟩

theorem matchesIn_eq_nil_iff {p : Pass} {l : Text} : p.matchesIn l = [] ↔ Silent p.rule none l :=
  silent_iff_unmatched.symm

theorem matchedLines_eq_zero_iff {p : Pass} {s : Text} :
    p.matchedLines s = 0 ↔ ∀ l ∈ lines s, Silent p.rule none l := by
  rw [matchedLines, List.countP_eq_zero]
  refine forall₂_congr fun l _ => ?_
  rw [← matchesIn_eq_nil_iff]
  simp

theorem matchedLines_append_newline (p : Pass) (a b : Text) :
    p.matchedLines (a ++ '\n' :: b) = p.matchedLines a + p.matchedLines b := by
  rw [matchedLines, lines_append_newline, List.countP_append]
  rfl

/-- The empty line behind a last line feed is no line to a reader, and holds no match. -/
theorem matchedLines_le_lineCount (p : Pass) (s : Text) : p.matchedLines s ≤ lineCount s := by
  have hempty : (p.matchesIn []).isEmpty = true := rfl
  rw [lineCount, matchedLines]
  split
  · next h =>
    obtain ⟨ls, hls⟩ := List.getLast?_eq_some_iff.1 h
    rw [hls, List.countP_append, List.length_append, List.countP_singleton, hempty]
    exact List.countP_le_length
  · exact List.countP_le_length

end Pass

namespace Trace

open Pass

/-! ## Counting over the whole text -/

/-- What stands in front of each match, if `front` stands in front of the pieces. -/
def fronts (front : Text) : List (Piece Text) → List Text
  | [] => []
  | .kept c :: ps => fronts (front ++ [c]) ps
  | .found t _ :: ps => front :: fronts (front ++ t) ps

/-- How many of the numbers are not the one that was seen last. -/
def changes (last : Option Nat) : List Nat → Nat
  | [] => 0
  | n :: ns => if last = some n then changes last ns else changes (some n) ns + 1

/-- The numbers of the lines with the matches, each counted if the last match was not on it. -/
def countLines (e : Expression) (s : Text) : Nat :=
  changes none ((fronts [] (sweep e.rule s)).map (·.count '\n'))

theorem fronts_append (front : Text) (ps qs : List (Piece Text)) :
    fronts front (ps ++ qs) = fronts front ps ++ fronts (front ++ ps.flatMap Piece.source) qs := by
  induction ps generalizing front with
  | nil => simp [fronts]
  | cons q ps ih => cases q <;> simp [fronts, ih, Piece.source]

/-- As long as no line feed comes, every match is on the same line. -/
theorem fronts_same_line {front : Text} {ps : List (Piece Text)} (h : '\n' ∉ ps.flatMap Piece.source) :
    (fronts front ps).map (·.count '\n') = List.replicate (ps.filterMap found?).length (front.count '\n') := by
  induction ps generalizing front with
  | nil => rfl
  | cons q ps ih =>
    rw [List.flatMap_cons, List.mem_append, not_or] at h
    have hfront : (front ++ q.source).count '\n' = front.count '\n' := by
      rw [List.count_append, List.count_eq_zero.2 h.1, Nat.add_zero]
    cases q with
    | kept c =>
      rw [Piece.source] at hfront
      rw [fronts, ih h.2, hfront]
      rfl
    | found t made =>
      rw [Piece.source] at hfront
      rw [fronts, List.map_cons, ih h.2, hfront]
      rfl

/-- Any matches of one line count as one. -/
theorem changes_line {last : Option Nat} {n : Nat} (h : last ≠ some n) (k : Nat) (ns : List Nat) :
    changes last (List.replicate (k + 1) n ++ ns) = changes (some n) ns + 1 := by
  have hsame : ∀ k, changes (some n) (List.replicate k n ++ ns) = changes (some n) ns := by
    intro k
    induction k with
    | zero => rfl
    | succ k ih => rw [List.replicate_succ, List.cons_append, changes, if_pos rfl, ih]
  rw [List.replicate_succ, List.cons_append, changes, if_neg h, hsame]

/-! ## Matches of an expression -/

theorem silent_iff_not_takes {e : Expression} {before : Option Char} {s : Text} :
    Silent e.rule before s ↔ ∀ a t r, s = a ++ (t ++ r) → ¬ e.pattern.Takes (behind before a) t r := by
  induction s generalizing before with
  | nil =>
    refine ⟨fun _ a t r hs ht => ?_, fun _ => trivial⟩
    obtain ⟨-, hnil⟩ := List.append_eq_nil_iff.1 hs.symm
    exact taken_ne_nil e.consumes ht (List.append_eq_nil_iff.1 hnil).1
  | cons c s ih =>
    rw [Silent, ih, Expression.rule_eq_none_iff]
    constructor
    · intro h a t r hs
      obtain ⟨hhere, hbehind⟩ := h
      cases a with
      | nil => exact hhere t r hs
      | cons d a =>
        obtain ⟨rfl, hrest⟩ := List.cons.inj hs
        rw [behind_cons]
        exact hbehind a t r hrest
    · intro h
      refine ⟨fun t r hs => h [] t r hs, fun a t r hs => ?_⟩
      rw [← behind_cons before]
      exact h (c :: a) t r (by rw [hs, List.cons_append])

theorem matches_iff {e : Expression} {s : Text} : e.Matches s ↔ (sweep e.rule s).filterMap found? ≠ [] := by
  rw [sweep, Ne, ← silent_iff_unmatched, silent_iff_not_takes, Expression.Matches]
  simp only [behind_none, Classical.not_forall, Classical.not_not, exists_prop]

instance (e : Expression) (s : Text) : Decidable (e.Matches s) := decidable_of_iff' _ matches_iff

variable {p : Pass} {e : Expression}

theorem filterMap_sweep_eq_matchesIn (h : Spells e p.rule) {l : Text} (hn : '\n' ∉ l) :
    (sweep e.rule l).filterMap found? = p.matchesIn l := by
  rw [sweep, sweepFrom_of_spells h (by simp) hn]
  rfl

/-- The lines that a pass counts are those that hold a match on their own. -/
theorem matchedLines_eq_countP (h : Spells e p.rule) (s : Text) :
    p.matchedLines s = (lines s).countP fun l => decide (e.Matches l) := by
  refine List.countP_congr fun l hl => ?_
  rw [decide_eq_true_eq, matches_iff, filterMap_sweep_eq_matchesIn h (not_mem_of_mem_lines hl)]
  simp

theorem changes_sweep_line (h : Spells e p.rule) {l : Text} (hn : '\n' ∉ l) {front : Text} {last : Option Nat}
    (hlast : last ≠ some (front.count '\n')) (ns : List Nat) :
    changes last ((fronts front (sweep e.rule l)).map (·.count '\n') ++ ns) =
      if p.matchesIn l = [] then changes last ns else changes (some (front.count '\n')) ns + 1 := by
  rw [fronts_same_line (by rwa [source_sweep]), filterMap_sweep_eq_matchesIn h hn]
  split
  · next hnil => rw [hnil]; rfl
  · next hne =>
    obtain ⟨t, ts, hts⟩ := List.exists_cons_of_ne_nil hne
    rw [hts, List.length_cons, changes_line hlast]

/-- The last line remembered is enough: the matches come line by line, in order. -/
theorem countLines_eq_matchedLines (hline : e.pattern.oneLine = true) (h : Spells e p.rule) (s : Text) :
    countLines e s = p.matchedLines s := by
  have hstops := Expression.stopsAt hline
  suffices ∀ (front : Text) (last : Option Nat), (∀ m ∈ last, m < front.count '\n') →
      changes last ((fronts front (sweep e.rule s)).map (·.count '\n')) = p.matchedLines s from this [] none (by simp)
  have hbefore : ∀ {last : Option Nat} {n : Nat}, (∀ m ∈ last, m < n) → last ≠ some n :=
    fun hlast heq => Nat.lt_irrefl _ (hlast _ heq)
  refine lines_induction (P := fun s => ∀ (front : Text) (last : Option Nat), (∀ m ∈ last, m < front.count '\n') →
    changes last ((fronts front (sweep e.rule s)).map (·.count '\n')) = p.matchedLines s) ?line ?more s
  case line =>
    intro l hl front last hlast
    have hcount := changes_sweep_line h hl (hbefore hlast) []
    rw [List.append_nil] at hcount
    rw [hcount, matchedLines, lines_of_not_mem hl, List.countP_singleton]
    by_cases hnil : p.matchesIn l = [] <;> simp [hnil, changes]
  case more =>
    intro l s hl ih front last hlast
    have hsweep : sweep e.rule (l ++ '\n' :: s) = sweep e.rule l ++ .kept '\n' :: sweep e.rule s := by
      rw [sweep, hstops.sweepFrom_append (Nat.zero_le _), hstops.sweepFrom_behind]
      rfl
    have hnext : (front ++ l ++ ['\n']).count '\n' = front.count '\n' + 1 := by
      rw [List.count_append, List.count_append, List.count_eq_zero.2 hl]
      rfl
    rw [hsweep, fronts_append, source_sweep, fronts, List.map_append, changes_sweep_line h hl (hbefore hlast),
      matchedLines_append_newline, matchedLines, lines_of_not_mem hl, List.countP_singleton]
    by_cases hnil : p.matchesIn l = []
    · rw [if_pos hnil, ih _ _ fun m hm => by have := hlast m hm; omega]
      simp [hnil]
    · rw [if_neg hnil, ih _ _ fun m hm => by rw [← Option.some.inj hm]; omega]
      simp [hnil, Nat.add_comm]

/-! ## Rewritten lines -/

/-- A pass that leaves a line as it is finds nothing in it. -/
theorem silent_of_rewriteLine_eq (hp : p ∈ pipeline) {l : Text} (hn : '\n' ∉ l) (h : p.rewriteLine l = l) :
    Silent p.rule none l := by
  simp only [pipeline, List.mem_cons, List.not_mem_nil, or_false] at hp
  rcases hp with rfl | rfl | rfl | rfl | rfl | rfl
  · refine silent_waits_iff.2 fun hm => ?_
    have := count_strip_lt hm
    rw [strip, h] at this
    exact Nat.lt_irrefl _ this
  · refine silent_of_unmatched delays_anchored (delays_eq_none_iff.2 fun hd => ?_)
    have := length_lines_reorder hd hn
    rw [h, lines_of_not_mem hn] at this
    cases this
  · refine silent_of_unmatched warps_anchored (warps_eq_none_iff.2 ?_)
    have := not_delay_materialize l
    rwa [h] at this
  · refine silent_ends_iff.2 ?_
    have := not_openStatement_terminate l
    rwa [h] at this
  · refine silent_addresses_iff.2 ?_
    have := not_bareAddress_type l
    rwa [h] at this
  · refine silent_of_unmatched depths_anchored (depths_eq_none_iff.2 ?_)
    have := not_shallow_renormalize l
    rwa [h] at this

theorem apply_eq_self_iff (hp : p ∈ pipeline) (s : Text) : p.apply s = s ↔ p.matchedLines s = 0 := by
  rw [matchedLines_eq_zero_iff]
  constructor
  · intro h l hl
    have hlines := lines_apply p s
    rw [h] at hlines
    have hone := (flatMap_eq_self_iff fun _ => lines_ne_nil _).1 hlines.symm l hl
    refine silent_of_rewriteLine_eq hp (not_mem_of_mem_lines hl) ?_
    rw [← unlines_lines (p.rewriteLine l), hone]
    rfl
  · intro h
    exact apply_eq_self fun l hl => rewrite_of_silent (h l hl)

/-! ## The statistics -/

theorem matchesOf_eq_nil_iff {s : Text} : p.matchesOf s = [] ↔ p.matchedLines s = 0 := by
  rw [matchedLines_eq_zero_iff, matchesOf, List.flatMap_eq_nil_iff]
  exact forall₂_congr fun _ _ => matchesIn_eq_nil_iff

/-- A pass that finds something reports how many lines it rewrote and how many it left, and these are all lines. -/
theorem mem_report_iff {s : Text} {n k : Nat} : Event.passCounts p.name n k ∈ p.report s ↔
    p.matchedLines s ≠ 0 ∧ n = p.matchedLines s ∧ n + k = lineCount s := by
  have hle := p.matchedLines_le_lineCount s
  rw [Ne, ← matchesOf_eq_nil_iff, Pass.report]
  split
  · next h => simp [h]
  · next h =>
    have hrewrote : Event.passCounts p.name n k ∉ (p.matchesOf s).map (.rewrote p.name) := by
      simp
    rw [List.mem_append, or_iff_right hrewrote]
    simp only [List.mem_cons, Event.passCounts.injEq, reduceCtorEq, true_and, List.not_mem_nil, or_false]
    constructor
    · rintro ⟨hn, hk⟩
      exact ⟨h, hn, by omega⟩
    · rintro ⟨-, hn, hk⟩
      exact ⟨hn, by omega⟩

/-- A pass counts exactly the lines that hold a match on their own. These are never more than the lines of the text,
    so that the counts it reports add up to them, and there are none exactly if the pass changes nothing. -/
theorem matchedLines_exact :
    expressions.map Prod.fst = pipeline ∧
      ∀ p e, (p, e) ∈ expressions → ∀ s,
        p.matchedLines s = countLines e s ∧
        p.matchedLines s = (lines s).countP (fun l => decide (e.Matches l)) ∧
        p.matchedLines s ≤ lineCount s ∧
        (∀ n k, Event.passCounts p.name n k ∈ p.report s ↔
          p.matchedLines s ≠ 0 ∧ n = p.matchedLines s ∧ n + k = lineCount s) ∧
        (p.apply s = s ↔ p.matchedLines s = 0) := by
  have hfst : expressions.map Prod.fst = pipeline := rfl
  refine ⟨hfst, fun p e h s => ?_⟩
  obtain ⟨hline, hspells⟩ := oneLine_and_spells h
  have hp : p ∈ pipeline := hfst ▸ List.mem_map_of_mem h
  exact ⟨(countLines_eq_matchedLines hline hspells s).symm, matchedLines_eq_countP hspells s,
    p.matchedLines_le_lineCount s, fun _ _ => mem_report_iff, apply_eq_self_iff hp s⟩

example : pipeline.map (·.matchedLines "*wait* *wait* foo()\nbar(5);\n".toList) = [1, 0, 0, 1, 0, 2] := by decide

end Trace
end Replay
