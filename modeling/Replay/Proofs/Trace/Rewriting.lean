/-
  Replay.Proofs.Trace.Rewriting — what a pass makes of a line.

  `rewrite` is the text a rule leaves behind a given character: its matches replaced and
  every other character kept. A pass rewrites a line from its start. Rules that match at
  the start of a line only (`delays`, `warps`, `depths`) replace once and keep the rest.

  Proved here: `rewrite_found`, `rewrite_of_silent`, `rewrite_anchored`, and for a whole
  text `lines_apply`, `lines_apply_of_count_le` and `apply_eq_self`.
-/

import Replay.Proofs.Text.Marks
import Replay.Proofs.Text.Sweep
import Replay.Trace.Pass

namespace Replay

open Text

namespace Pass

variable {rule : Rule Text}

def rewrite (rule : Rule Text) (before : Option Char) (s : Text) : Text :=
  (sweepFrom rule before 0 s).flatMap outcome

@[simp] theorem rewrite_nil (before : Option Char) : rewrite rule before [] = [] := rfl

theorem rewrite_kept {before : Option Char} {c : Char} {s : Text}
    (h : rule before (c :: s) = none) :
    rewrite rule before (c :: s) = c :: rewrite rule (some c) s := by
  simp [rewrite, sweepFrom_kept h, outcome]

theorem rewrite_found {before : Option Char} {c : Char} {t s made : Text}
    (h : rule before (c :: t ++ s) = some ⟨t.length, made⟩) :
    rewrite rule before (c :: t ++ s) = made ++ rewrite rule (behind (some c) t) s := by
  rw [rewrite, sweepFrom_found h]
  rfl

theorem rewrite_of_silent {before : Option Char} {s : Text} (h : Silent rule before s) :
    rewrite rule before s = s := by
  rw [rewrite, silent_iff_kept.1 h, List.flatMap_map]
  exact List.flatMap_singleton' s

/-- What stands behind the one match of a rule that asks for the start of a line is kept. -/
theorem rewrite_anchored (h : ∀ c s, rule (some c) s = none) {c : Char} {t s made : Text}
    (hf : rule none (c :: t ++ s) = some ⟨t.length, made⟩) :
    rewrite rule none (c :: t ++ s) = made ++ s := by
  obtain ⟨d, hd⟩ : ∃ d, behind (some c) t = some d := by
    cases ht : t.getLast? <;> simp [behind, ht]
  rw [rewrite_found hf, hd, rewrite_of_silent (silent_of_anchored h d s)]

theorem rewrite_whole (h : ∀ c s, rule (some c) s = none) {s made : Text} (hs : s ≠ [])
    (hf : rule none s = some ⟨s.length - 1, made⟩) : rewrite rule none s = made := by
  cases s with
  | nil => exact absurd rfl hs
  | cons c t =>
    have hf' : rule none (c :: t ++ []) = some ⟨t.length, made⟩ := by simpa using hf
    simpa using rewrite_anchored h hf'

theorem rewrite_unmatched (h : ∀ c s, rule (some c) s = none) {s : Text} (hf : rule none s = none) :
    rewrite rule none s = s :=
  rewrite_of_silent (silent_of_unmatched h hf)

/-! ## Texts -/

/-- The lines of an output are those of the rewritten lines. -/
theorem lines_apply (p : Pass) (s : Text) :
    lines (p.apply s) = (lines s).flatMap fun l => lines (p.rewriteLine l) := by
  rw [apply, lines_unlines (by simp [lines_ne_nil]), List.flatMap_map]

/-- A pass that writes no line feed makes one line of a line. -/
theorem lines_apply_of_count_le {p : Pass} (h : ∀ l, (p.rewriteLine l).count '\n' ≤ l.count '\n') (s : Text) :
    lines (p.apply s) = (lines s).map p.rewriteLine := by
  refine lines_unlines_of_not_mem (by simp [lines_ne_nil]) fun m hm => ?_
  obtain ⟨l, hl, rfl⟩ := List.mem_map.1 hm
  have h0 := List.count_eq_zero.2 (not_mem_of_mem_lines hl)
  refine List.count_eq_zero.1 ?_
  have := h l
  omega

theorem apply_eq_self {p : Pass} {s : Text} (h : ∀ l ∈ lines s, p.rewriteLine l = l) :
    p.apply s = s := by
  rw [apply, List.map_congr_left h, List.map_id', unlines_lines]

end Pass
end Replay
