/-
  Replay.Proofs.Trace.Lines — a whole trace, line by line.

  A line loses its wait marks, a delayed call becomes two lines, and the last four passes
  make one line of each: these are its `statements`. The lines of a block are the
  statements of the lines of the trace, in order, so two facts decide whether the pipeline
  changes a text. No line is lost: every line has at least one statement. No pass writes
  the `*` of a wait mark, and the first removes one with every mark.

  Proved here: `lines_transform`, `lines_reorder`, `count_strip_lt`, `statements_eq_self_iff`.
-/

import Replay.Proofs.Trace.Shapes

namespace Replay.Trace

open Text Pass

/-! ## Wait marks -/

theorem strip_induction {P : Text → Prop} (nil : P []) (mark : ∀ s, P s → P (waitMark ++ s))
    (cons : ∀ c s, ¬ waitMark <+: c :: s → P s → P (c :: s)) (s : Text) : P s := by
  induction hn : s.length using Nat.strongRecOn generalizing s with
  | _ n ih =>
    by_cases h : waitMark <+: s
    · obtain ⟨r, rfl⟩ := h
      refine mark r (ih r.length ?_ r rfl)
      have : 0 < waitMark.length := by decide
      rw [← hn, List.length_append]
      omega
    · cases s with
      | nil => exact nil
      | cons c s => exact cons c s h (ih s.length (by simp [← hn]) s rfl)

theorem count_strip_le (c : Char) (s : Text) : (strip s).count c ≤ s.count c := by
  refine strip_induction (P := fun s => (strip s).count c ≤ s.count c) ?nil ?mark ?cons s
  case nil => exact Nat.le_refl _
  case mark =>
    intro s ih
    rw [strip_mark, List.count_append]
    omega
  case cons =>
    intro d s h ih
    rw [strip_cons h, List.count_cons, List.count_cons]
    omega

theorem newline_not_mem_strip {l : Text} (h : '\n' ∉ l) : '\n' ∉ strip l := by
  have := count_strip_le '\n' l
  rw [List.count_eq_zero.2 h] at this
  exact List.count_eq_zero.1 (Nat.le_zero.1 this)

/-- Every wait mark takes a `*` with it. -/
theorem count_strip_lt {s : Text} (h : Marked s) : (strip s).count '*' < s.count '*' := by
  revert h
  refine strip_induction (P := fun s => Marked s → (strip s).count '*' < s.count '*') ?nil ?mark ?cons s
  case nil => exact fun h => absurd (List.infix_nil.1 h) waitMark_ne_nil
  case mark =>
    intro s _ _
    have hs := count_strip_le '*' s
    have hm : 0 < waitMark.count '*' := by decide
    rw [strip_mark, List.count_append]
    omega
  case cons =>
    intro d s hd ih h
    have := ih ((List.infix_cons_iff.1 h).resolve_left hd)
    rw [strip_cons hd, List.count_cons, List.count_cons]
    omega

/-! ## Delayed calls -/

/-- The delay comes first, the call behind it and one level deeper. -/
theorem lines_reorder {indent name args delay : Text} (hi : Blanks indent) (hn : IsCallName name)
    (hlast : ¬ callMark <:+: delay) (h : '\n' ∉ indent ++ name ++ '(' :: args ++ callMark ++ delay) :
    lines (Pass.delays.rewriteLine (indent ++ name ++ '(' :: args ++ callMark ++ delay)) =
      [indent ++ delayMark ++ delay, indent ++ level ++ name ++ '(' :: args ++ [')']] := by
  simp only [List.mem_append, not_or] at h
  obtain ⟨⟨⟨⟨hin, hna⟩, har⟩, -⟩, hde⟩ := h
  have hfirst : '\n' ∉ indent ++ delayMark ++ delay := by
    simp only [List.mem_append, not_or]
    exact ⟨⟨hin, by decide⟩, hde⟩
  have hsecond : '\n' ∉ indent ++ level ++ name ++ '(' :: args ++ [')'] := by
    simp only [List.mem_append, not_or]
    exact ⟨⟨⟨⟨hin, by decide⟩, hna⟩, har⟩, by decide⟩
  have hsplit : indent ++ delayMark ++ delay ++ '\n' :: indent ++ level ++ name ++ '(' :: args ++ [')'] =
      indent ++ delayMark ++ delay ++ '\n' :: (indent ++ level ++ name ++ '(' :: args ++ [')']) := by simp
  rw [reorder_of_last hi hn hlast, hsplit, lines_append_newline, lines_of_not_mem hfirst, lines_of_not_mem hsecond]
  rfl

theorem lines_reorder_eq_self {l : Text} (h : ¬ DelayedCall l) (hn : '\n' ∉ l) :
    lines (Pass.delays.rewriteLine l) = [l] := by
  rw [reorder_eq_self h, lines_of_not_mem hn]

theorem length_lines_reorder {l : Text} (h : DelayedCall l) (hn : '\n' ∉ l) :
    (lines (Pass.delays.rewriteLine l)).length = 2 := by
  obtain ⟨indent, name, args, delay, hi, hname, hlast, rfl⟩ := h.exists_last
  rw [lines_reorder hi hname hlast hn]
  rfl

/-! ## The statements of a line -/

/-- What a line becomes. -/
def statements (l : Text) : List Text := (lines (Pass.delays.rewriteLine (strip l))).map finish

theorem text_inj {a b : Block} : a = b ↔ a.text = b.text := by
  cases a
  cases b
  simp

theorem transform_text (x : Text) : (transform x).text =
    Pass.depths.apply (Pass.addresses.apply (Pass.ends.apply (Pass.warps.apply (Pass.delays.apply (Pass.waits.apply x))))) := by
  simp only [transform, pipeline, List.foldl_cons, List.foldl_nil]

theorem transform_append_newline (a b : Text) :
    (transform (a ++ '\n' :: b)).text = (transform a).text ++ '\n' :: (transform b).text := by
  simp only [transform_text, Pass.apply_append_newline]

theorem lines_waits (x : Text) : lines (Pass.waits.apply x) = (lines x).map strip :=
  lines_apply_of_count_le (count_strip_le '\n') x

/-- The last four passes finish every line on its own. -/
theorem lines_finish (s : Text) :
    lines (Pass.depths.apply (Pass.addresses.apply (Pass.ends.apply (Pass.warps.apply s)))) = (lines s).map finish := by
  have hwarps := lines_apply_of_count_le (p := .warps) (count_materialize_le (by decide)) s
  have hends := lines_apply_of_count_le (p := .ends) fun l => Nat.le_of_eq (count_terminate (by decide) l)
  have haddresses := lines_apply_of_count_le (p := .addresses) fun l => Nat.le_of_eq (count_typed (by decide) none l)
  have hdepths := lines_apply_of_count_le (p := .depths) (count_renormalize_le (by decide))
  rw [hdepths, haddresses, hends, hwarps, List.map_map, List.map_map, List.map_map]
  rfl

theorem lines_transform (x : Text) : lines (transform x).text = (lines x).flatMap statements := by
  rw [transform_text, lines_finish, lines_apply, lines_waits, List.flatMap_map, List.map_flatMap]
  rfl

theorem transform_line {l : Text} (h : '\n' ∉ l) : (transform l).text = unlines (statements l) := by
  rw [← unlines_lines (transform l).text, lines_transform, lines_of_not_mem h, List.flatMap_singleton]

theorem statements_ne_nil (l : Text) : statements l ≠ [] := by
  simp [statements, lines_ne_nil]

/-- A finished line is its own only statement exactly if the first two rules leave it. -/
theorem statements_eq_self_iff {l : Text} (hn : '\n' ∉ l) (hf : finish l = l) :
    statements l = [l] ↔ ¬ Marked l ∧ ¬ DelayedCall l := by
  constructor
  · intro h
    have hmark : ¬ Marked l := by
      intro hm
      have hlt := count_strip_lt hm
      have hns := newline_not_mem_strip hn
      by_cases hd : DelayedCall (strip l)
      · have := length_lines_reorder hd hns
        rw [← List.length_map finish, ← statements, h] at this
        cases this
      · rw [statements, lines_reorder_eq_self hd hns] at h
        have hle := count_finish_le (c := '*') (.inl rfl) (strip l)
        rw [(List.cons.inj h).1] at hle
        omega
    refine ⟨hmark, fun hd => ?_⟩
    have := length_lines_reorder hd hn
    rw [statements, strip_of_not_marked hmark] at h
    rw [← List.length_map finish, h] at this
    cases this
  · intro ⟨hm, hd⟩
    rw [statements, strip_of_not_marked hm, lines_reorder_eq_self hd hn, List.map_singleton, hf]

theorem length_le_flatMap {α : Type} {f : α → List α} (hf : ∀ x, f x ≠ []) (l : List α) :
    l.length ≤ (l.flatMap f).length := by
  induction l with
  | nil => exact Nat.le_refl _
  | cons x l ih =>
    have := List.length_pos_iff.2 (hf x)
    rw [List.flatMap_cons, List.length_append, List.length_cons]
    omega

/-- Pieces that are never empty leave a list as it is only one by one. -/
theorem flatMap_eq_self_iff {α : Type} {f : α → List α} (hf : ∀ x, f x ≠ []) {l : List α} :
    l.flatMap f = l ↔ ∀ x ∈ l, f x = [x] := by
  induction l with
  | nil => simp
  | cons x l ih =>
    rw [List.flatMap_cons, List.forall_mem_cons]
    constructor
    · intro h
      obtain ⟨y, t, ht⟩ := List.exists_cons_of_ne_nil (hf x)
      rw [ht, List.cons_append] at h
      obtain ⟨rfl, hrest⟩ := List.cons.inj h
      have htl : t = [] := by
        have h1 := congrArg List.length hrest
        have h2 := length_le_flatMap hf l
        rw [List.length_append] at h1
        exact List.length_eq_zero_iff.1 (by omega)
      subst htl
      exact ⟨ht, ih.1 hrest⟩
    · intro ⟨hx, hl⟩
      rw [hx, ih.2 hl]
      rfl

end Replay.Trace
