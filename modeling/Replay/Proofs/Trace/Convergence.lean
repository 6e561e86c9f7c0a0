/-
  Replay.Proofs.Trace.Convergence — the pipeline run on its own output, again and again.

  A block need not stay as it is: a wait mark can close up around a removed one, and of a
  call with two delays one delay is left. But every run has less to do. What is left to do
  in a text is counted by its stars and by its closing brackets with a space behind them
  (`work`). A wait mark takes two stars with it and closes up at most one such pair. A call
  that is parted from its delay loses the pair between them, and no later pass writes a star
  or a bracket with a space behind it. So a run that changes a block leaves less work, and
  after finitely many runs there is none that does.

  Proved here: `work_strip_lt`, `work_statements_lt`, `work_transform_lt`,
  `transform_converges`.
-/

import Mathlib
import Replay.Proofs.Trace.Settled

namespace Replay.Trace

open Text Pass

/-- How many closing brackets have a space behind them. -/
def gaps : Text → Nat
  | [] => 0
  | c :: s => (if c = ')' ∧ s.head? = some ' ' then 1 else 0) + gaps s

/-- No text is changed by more runs than this, and one. -/
def work (s : Text) : Nat := s.count '*' + gaps s

/-! ## Brackets with a space behind them -/

theorem gaps_cons_of_ne {c : Char} (h : c ≠ ')') (s : Text) : gaps (c :: s) = gaps s := by
  simp [gaps, h]

theorem gaps_skip {a : Text} (h : ')' ∉ a) (s : Text) : gaps (a ++ s) = gaps s := by
  induction a with
  | nil => rfl
  | cons c a ih =>
    simp only [List.mem_cons, not_or] at h
    rw [List.cons_append, gaps_cons_of_ne (Ne.symm h.1), ih h.2]

/-- Two stretches that share a character share no bracket with what is behind it. -/
theorem gaps_append_cons (a : Text) (c : Char) (s : Text) : gaps (a ++ c :: s) = gaps (a ++ [c]) + gaps (c :: s) := by
  induction a with
  | nil => simp [gaps]
  | cons d a ih =>
    have hhead : (a ++ c :: s).head? = (a ++ [c]).head? := by cases a <;> rfl
    simp only [List.cons_append, gaps, hhead] at ih ⊢
    omega

theorem gaps_append_singleton {c : Char} (h : c ≠ ' ') (a : Text) : gaps (a ++ [c]) = gaps a := by
  induction a with
  | nil => simp [gaps]
  | cons d a ih =>
    have hhead : (a ++ [c]).head? = some ' ' ↔ a.head? = some ' ' := by cases a <;> simp [h]
    simp only [List.cons_append, gaps, hhead, ih]

/-- A character that is neither of the two parts a text into two. -/
theorem gaps_part {c : Char} (hb : c ≠ ')') (hs : c ≠ ' ') (a s : Text) : gaps (a ++ c :: s) = gaps a + gaps s := by
  rw [gaps_append_cons, gaps_append_singleton hs, gaps_cons_of_ne hb]

/-! ## Lines -/

theorem work_append_newline (a b : Text) : work (a ++ '\n' :: b) = work a + work b := by
  have hstar : (a ++ '\n' :: b).count '*' = a.count '*' + b.count '*' := by simp [List.count_append]
  rw [work, work, work, hstar, gaps_part (by decide) (by decide)]
  omega

/-- The work on a text is that on its lines. -/
theorem work_eq_sum (s : Text) : work s = ((lines s).map work).sum := by
  refine lines_induction (P := fun s => work s = ((lines s).map work).sum) ?line ?more s
  case line =>
    intro l hl
    simp [lines_of_not_mem hl]
  case more =>
    intro l s hl ih
    rw [work_append_newline, ih, lines_cons_line hl, List.map_cons, List.sum_cons]

/-! ## Wait marks -/

theorem head?_strip {s : Text} (h : ¬ waitMark <+: s) : (strip s).head? = s.head? := by
  cases s with
  | nil => rfl
  | cons c s =>
    rw [strip_cons h]
    rfl

/-- With its two stars, a mark pays for the one bracket that its removal may put in front of a space. -/
theorem gaps_strip_add_le (s : Text) :
    (strip s).count '*' + 2 * gaps (strip s) + (if waitMark <+: s then 2 else 0) ≤ s.count '*' + 2 * gaps s := by
  refine strip_induction (P := fun s =>
    (strip s).count '*' + 2 * gaps (strip s) + (if waitMark <+: s then 2 else 0) ≤ s.count '*' + 2 * gaps s)
    ?nil ?mark ?cons s
  case nil => decide
  case mark =>
    intro s ih
    rw [strip_mark, if_pos (List.prefix_append _ _), List.count_append, gaps_skip (by decide),
      show waitMark.count '*' = 2 from by decide]
    omega
  case cons =>
    intro c s h ih
    rw [strip_cons h, if_neg h, List.count_cons, List.count_cons]
    by_cases hs : waitMark <+: s
    · have hmost : gaps (c :: strip s) ≤ 1 + gaps (strip s) := Nat.add_le_add_right (by split <;> omega) _
      have hleast : gaps s ≤ gaps (c :: s) := Nat.le_add_left _ _
      rw [if_pos hs] at ih
      omega
    · rw [if_neg hs] at ih
      rw [gaps, gaps, head?_strip hs]
      omega

theorem work_strip_le (s : Text) : work (strip s) ≤ work s := by
  have hboth := gaps_strip_add_le s
  have hstars := count_strip_le '*' s
  simp only [work]
  omega

theorem work_strip_lt {s : Text} (h : Marked s) : work (strip s) < work s := by
  have hboth := gaps_strip_add_le s
  have hstars := count_strip_lt h
  simp only [work]
  omega

/-! ## Delayed calls -/

theorem work_skip {a : Text} (hb : ')' ∉ a) (hs : '*' ∉ a) (s : Text) : work (a ++ s) = work s := by
  rw [work, work, List.count_append, List.count_eq_zero.2 hs, gaps_skip hb, Nat.zero_add]

/-- Parted between a bracket and the space behind it, a text has less work. -/
theorem work_gap (a s : Text) : work (a ++ ')' :: ' ' :: s) = work (a ++ [')']) + work s + 1 := by
  have hgaps : gaps (')' :: ' ' :: s) = 1 + gaps s := by
    rw [gaps, if_pos ⟨rfl, rfl⟩, gaps_cons_of_ne (by decide)]
  have hstars : (a ++ ')' :: ' ' :: s).count '*' = (a ++ [')']).count '*' + s.count '*' := by
    simp [List.count_append]
  rw [work, work, work, gaps_append_cons, hgaps, hstars]
  omega

/-- A call that is parted from its delay. -/
theorem work_delayed {indent name : Text} (hi : Blanks indent) (hn : IsCallName name) (args delay : Text) :
    work (indent ++ name ++ '(' :: args ++ callMark ++ delay) =
      work (indent ++ level ++ name ++ '(' :: args ++ [')']) + work (indent ++ delayMark ++ delay) + 1 := by
  have hfree : ∀ c, isBlank c = false → isCallChar c = false → c ∉ indent ∧ c ∉ name := fun c hb hc =>
    ⟨run_not_mem hi hb, run_not_mem hn.chars hc⟩
  obtain ⟨hbi, hbn⟩ := hfree ')' (by decide) (by decide)
  obtain ⟨hsi, hsn⟩ := hfree '*' (by decide) (by decide)
  have hlevel : ')' ∉ level ∧ '*' ∉ level := by decide
  have hmark : ')' ∉ delayMark ∧ '*' ∉ delayMark := by decide
  have hcall : work (indent ++ level ++ name ++ '(' :: args ++ [')']) =
      work (indent ++ name ++ '(' :: args ++ [')']) := by
    simp only [List.append_assoc]
    rw [work_skip hbi hsi, work_skip hlevel.1 hlevel.2, work_skip hbi hsi]
  have hdelay : work (indent ++ delayMark ++ delay) = work (delayMark ++ delay) := by
    rw [List.append_assoc, work_skip hbi hsi]
  calc work (indent ++ name ++ '(' :: args ++ callMark ++ delay)
      = work (indent ++ name ++ '(' :: args ++ ')' :: ' ' :: (delayMark ++ delay)) := by simp [callMark]
    _ = work (indent ++ name ++ '(' :: args ++ [')']) + work (delayMark ++ delay) + 1 := work_gap _ _
    _ = _ := by rw [hcall, hdelay]

theorem work_reorder_lt {s : Text} (h : DelayedCall s) (hn : '\n' ∉ s) :
    ((lines (Pass.delays.rewriteLine s)).map work).sum < work s := by
  obtain ⟨indent, name, args, delay, hi, hname, hlast, rfl⟩ := h.exists_last
  rw [lines_reorder hi hname hlast hn, work_delayed hi hname]
  simp only [List.map_cons, List.map_nil, List.sum_cons, List.sum_nil]
  omega

theorem work_reorder_le {s : Text} (hn : '\n' ∉ s) :
    ((lines (Pass.delays.rewriteLine s)).map work).sum ≤ work s := by
  by_cases h : DelayedCall s
  · exact Nat.le_of_lt (work_reorder_lt h hn)
  · rw [lines_reorder_eq_self h hn]
    simp

/-! ## The last four passes -/

theorem gaps_materialize_le (s : Text) : gaps (Pass.warps.rewriteLine s) ≤ gaps s := by
  by_cases h : Delay s
  · obtain ⟨indent, seconds, rest, hi, hne, hs, rfl⟩ := h
    have hfree : ')' ∉ indent ++ warpHead ++ seconds := by
      simp only [List.mem_append, not_or]
      exact ⟨⟨run_not_mem hi (by decide), by decide⟩, run_not_mem hs (by decide)⟩
    rw [materialize_delay hi hne hs, gaps_skip hfree]
    exact Nat.zero_le _
  · exact Nat.le_of_eq (by rw [materialize_eq_self h])

theorem gaps_terminate_le (s : Text) : gaps (Pass.ends.rewriteLine s) ≤ gaps s := by
  rcases terminate_cases s with ⟨a, t, -, rfl, he⟩ | ⟨-, he⟩
  · have hleast : gaps t ≤ gaps (')' :: t) := Nat.le_add_left _ _
    have hends : gaps (')' :: ';' :: t) = gaps t := by simp [gaps]
    rw [he, gaps_append_cons, hends, gaps_append_cons a ')' t]
    omega
  · exact Nat.le_of_eq (by rw [he])

theorem head?_typed {before : Option Char} {s : Text} : (typed before s).head? = some ' ' ↔ s.head? = some ' ' := by
  cases s with
  | nil => rfl
  | cons c s =>
    by_cases h : Argument before (c :: s)
    · obtain ⟨digits, r, hb, hne, hd, hs⟩ := h
      rw [hs, typed_argument hb hne hd]
      simp [addressHead_eq]
    · rw [typed_kept h]
      rfl

theorem gaps_typed (before : Option Char) (s : Text) : gaps (typed before s) = gaps s := by
  refine typed_induction (P := fun before s => gaps (typed before s) = gaps s) ?nil ?kept ?argument before s
  case nil => exact fun _ => rfl
  case kept =>
    intro before c s hno ih
    simp only [typed_kept hno, gaps, head?_typed, ih]
  case argument =>
    intro before digits r hb hne hd ih
    have hdigits : ')' ∉ digits := run_not_mem hd (by decide)
    have hhead : ')' ∉ addressHead := by decide
    rw [typed_argument hb hne hd, gaps_skip (by simp [hdigits, hhead]), gaps_skip (by simp [hdigits])]
    simp [gaps, ih]

theorem gaps_renormalize (s : Text) : gaps (Pass.depths.rewriteLine s) = gaps s := by
  rcases renormalize_cases s with ⟨indent, c, r, hi, -, rfl, he⟩ | he
  · rw [he, gaps_skip (run_not_mem blanks_depth (by decide)), gaps_skip (run_not_mem hi (by decide))]
  · rw [he]

theorem work_finish_le (l : Text) : work (finish l) ≤ work l := by
  have hgaps : gaps (finish l) ≤ gaps l := by
    rw [finish, gaps_renormalize]
    show gaps (typed none _) ≤ _
    rw [gaps_typed]
    exact Nat.le_trans (gaps_terminate_le _) (gaps_materialize_le l)
  exact Nat.add_le_add (count_finish_le (.inl rfl) l) hgaps

theorem sum_map_finish_le (ls : List Text) : ((ls.map finish).map work).sum ≤ (ls.map work).sum := by
  rw [List.map_map]
  exact List.sum_le_sum fun l _ => work_finish_le l

/-! ## One run -/

theorem work_statements_le {l : Text} (hn : '\n' ∉ l) : ((statements l).map work).sum ≤ work l :=
  calc ((statements l).map work).sum
      ≤ ((lines (Pass.delays.rewriteLine (strip l))).map work).sum := sum_map_finish_le _
    _ ≤ work (strip l) := work_reorder_le (newline_not_mem_strip hn)
    _ ≤ work l := work_strip_le l

/-- A line in which one of the first two rules finds something leaves less work. -/
theorem work_statements_lt {l : Text} (hn : '\n' ∉ l) (h : Marked l ∨ DelayedCall l) :
    ((statements l).map work).sum < work l := by
  by_cases hm : Marked l
  · calc ((statements l).map work).sum
        ≤ ((lines (Pass.delays.rewriteLine (strip l))).map work).sum := sum_map_finish_le _
      _ ≤ work (strip l) := work_reorder_le (newline_not_mem_strip hn)
      _ < work l := work_strip_lt hm
  · calc ((statements l).map work).sum
        ≤ ((lines (Pass.delays.rewriteLine (strip l))).map work).sum := sum_map_finish_le _
      _ = ((lines (Pass.delays.rewriteLine l)).map work).sum := by rw [strip_of_not_marked hm]
      _ < work l := work_reorder_lt (h.resolve_left hm) hn

theorem work_transform (x : Text) : work (transform x).text =
    ((lines x).map fun l => ((statements l).map work).sum).sum := by
  rw [work_eq_sum, lines_transform, List.map_flatMap, List.flatMap_def, List.sum_flatten, List.map_map]
  rfl

theorem work_transform_le (x : Text) : work (transform x).text ≤ work x := by
  rw [work_transform, work_eq_sum x]
  exact List.sum_le_sum fun l hl => work_statements_le (not_mem_of_mem_lines hl)

theorem work_transform_lt {x : Text} (h : ∃ l ∈ lines x, Marked l ∨ DelayedCall l) :
    work (transform x).text < work x := by
  obtain ⟨l, hl, hfound⟩ := h
  rw [work_transform, work_eq_sum x]
  refine List.sum_lt_sum _ _ (fun m hm => work_statements_le (not_mem_of_mem_lines hm)) ⟨l, hl, ?_⟩
  exact work_statements_lt (not_mem_of_mem_lines hl) hfound

/-! ## Many runs -/

/-- What is left of a text after one more run. -/
def rerun (x : Text) : Text := (transform x).text

/-- A run that changes a block leaves less work. -/
theorem work_rerun_lt {x : Text} (h : rerun (rerun x) ≠ rerun x) : work (rerun (rerun x)) < work (rerun x) := by
  refine work_transform_lt ?_
  apply Classical.byContradiction
  intro hno
  refine h ((transform_eq_self_iff fun l hl => settled_of_mem_lines hl).2 fun l hl => ?_)
  rw [← not_or]
  exact fun hfound => hno ⟨l, hl, hfound⟩

/-- Where every later step that changes something brings a measure down, the steps come to an end within it. -/
theorem exists_iterate_eq {α : Type} {f : α → α} {size : α → Nat}
    (h : ∀ a, f (f a) ≠ f a → size (f (f a)) < size (f a)) (a : α) :
    ∃ n ≤ size (f a), f^[n + 1] (f a) = f^[n] (f a) := by
  induction hn : size (f a) using Nat.strongRecOn generalizing a with
  | _ n ih =>
    by_cases hfix : f (f a) = f a
    · exact ⟨0, Nat.zero_le _, hfix⟩
    · have hlt := h a hfix
      obtain ⟨m, hm, heq⟩ := ih _ (hn ▸ hlt) (f a) rfl
      exact ⟨m + 1, by omega, heq⟩

/-- The runs of the pipeline come to an end, after one run and at most as many more as there is work. -/
theorem transform_converges (x : Text) : ∃ n ≤ work x + 1, rerun^[n + 1] x = rerun^[n] x := by
  obtain ⟨n, hn, heq⟩ := exists_iterate_eq (fun _ => work_rerun_lt) x
  have hfirst : work (rerun x) ≤ work x := work_transform_le x
  exact ⟨n + 1, by omega, heq⟩

end Replay.Trace
