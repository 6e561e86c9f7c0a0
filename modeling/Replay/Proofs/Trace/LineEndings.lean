/-
  Replay.Proofs.Trace.LineEndings — traces whose lines end with a carriage return.

  A line may end with a line feed alone or with a carriage return and a line feed; the
  return then stands at the end of the line. The rules see it in different ways. For most it
  is a character as any other, behind which nothing is looked for. A delay takes it with the
  rest of its line, an open statement may end with it, and for the indentation it is white
  space. In each case a line with a return at its end becomes what the line without it
  becomes, with that return or without it (`Returned`).

  Proved here: for every pass what it makes of a line with a return (`strip_returned`,
  `finish_returned`, `statements_returned`), and `transform_withReturns`.
-/

import Replay.Proofs.Trace.Lines

namespace Replay.Trace

open Text Pass

/-- Every line feed with a carriage return in front of it. -/
def withReturns (s : Text) : Text := s.flatMap fun c => if c = '\n' then ['\r', '\n'] else [c]

def withoutReturns (s : Text) : Text := s.filter (· ≠ '\r')

/-- `t` is `s`, perhaps with a carriage return at its end, and `s` has none. -/
structure Returned (s t : Text) : Prop where
  bare : '\r' ∉ s
  ending : t = s ∨ t = s ++ ['\r']

namespace Returned

variable {s t : Text}

theorem refl (h : '\r' ∉ s) : Returned s s := ⟨h, .inl rfl⟩

theorem append {a : Text} (ha : '\r' ∉ a) (h : Returned s t) : Returned (a ++ s) (a ++ t) where
  bare := by simp [ha, h.bare]
  ending := by
    rcases h.ending with rfl | rfl
    · exact .inl rfl
    · exact .inr (List.append_assoc ..).symm

theorem exists_append {a b : Text} (h : Returned (a ++ b) t) : ∃ b', t = a ++ b' ∧ Returned b b' := by
  have hb : '\r' ∉ b := fun hm => h.bare (List.mem_append_right a hm)
  rcases h.ending with rfl | rfl
  · exact ⟨b, rfl, hb, .inl rfl⟩
  · exact ⟨b ++ ['\r'], List.append_assoc .., hb, .inr rfl⟩

theorem mem_iff {c : Char} (hc : c ≠ '\r') (h : Returned s t) : c ∈ t ↔ c ∈ s := by
  rcases h.ending with rfl | rfl
  · rfl
  · simp [hc]

theorem infix_iff {mark : Text} (hne : mark ≠ []) (hm : '\r' ∉ mark) (h : Returned s t) :
    mark <:+: t ↔ mark <:+: s := by
  rcases h.ending with rfl | rfl
  · rfl
  · rw [infix_append_cons_iff hne hm, List.infix_nil]
    simp [hne]

end Returned

/-! ## Texts -/

theorem withoutReturns_of_not_mem {s : Text} (h : '\r' ∉ s) : withoutReturns s = s := by
  refine List.filter_eq_self.2 fun c hc => decide_eq_true ?_
  rintro rfl
  exact h hc

theorem Returned.withoutReturns_eq {s t : Text} (h : Returned s t) : withoutReturns t = s := by
  rcases h.ending with rfl | rfl
  · exact withoutReturns_of_not_mem h.bare
  · rw [withoutReturns, List.filter_append, ← withoutReturns, withoutReturns_of_not_mem h.bare]
    simp

theorem withoutReturns_append_newline (a b : Text) :
    withoutReturns (a ++ '\n' :: b) = withoutReturns a ++ '\n' :: withoutReturns b := by
  simp [withoutReturns]

theorem withoutReturns_unlines (ls : List Text) : withoutReturns (unlines ls) = unlines (ls.map withoutReturns) := by
  induction ls with
  | nil => rfl
  | cons l ls ih =>
    by_cases hnil : ls = []
    · subst hnil
      rfl
    · rw [unlines_cons_of_ne_nil l hnil, withoutReturns_append_newline, ih, List.map_cons,
        unlines_cons_of_ne_nil _ (by simpa using hnil)]

theorem withReturns_of_not_mem {l : Text} (h : '\n' ∉ l) : withReturns l = l := by
  induction l with
  | nil => rfl
  | cons c l ih =>
    simp only [List.mem_cons, not_or] at h
    rw [withReturns, List.flatMap_cons, if_neg (Ne.symm h.1), ← withReturns, ih h.2]
    rfl

theorem withReturns_append_newline {l : Text} (h : '\n' ∉ l) (s : Text) :
    withReturns (l ++ '\n' :: s) = l ++ ['\r'] ++ '\n' :: withReturns s := by
  have hl := withReturns_of_not_mem h
  simp only [withReturns] at hl ⊢
  simp [hl]

/-! ## Lines with a return -/

theorem returned_of_rewrite {f : Text → Text} (hcount : ∀ s, (f s).count '\r' ≤ s.count '\r')
    (hf : ∀ s, '\r' ∉ s → f (s ++ ['\r']) = f s ∨ f (s ++ ['\r']) = f s ++ ['\r']) {s t : Text} (h : Returned s t) :
    Returned (f s) (f t) where
  bare := by
    have hle := hcount s
    rw [List.count_eq_zero.2 h.bare] at hle
    exact List.count_eq_zero.1 (Nat.le_zero.1 hle)
  ending := by
    rcases h.ending with rfl | rfl
    · exact .inl rfl
    · exact hf s h.bare

/-- A character in front of the return stands in the line without it. -/
theorem exists_of_return {s a r : Text} {e : Char} (h : s ++ ['\r'] = a ++ e :: r) (he : e ≠ '\r') :
    ∃ t, s = a ++ e :: t ∧ r = t ++ ['\r'] :=
  append_eq_keep h.symm (by simpa using he)

theorem strip_return (s : Text) : strip (s ++ ['\r']) = strip s ++ ['\r'] := by
  refine strip_induction (P := fun s => strip (s ++ ['\r']) = strip s ++ ['\r']) ?nil ?mark ?cons s
  case nil => decide
  case mark =>
    intro s ih
    rw [List.append_assoc, strip_mark, strip_mark, ih]
  case cons =>
    intro c s h ih
    have hr : ¬ waitMark <+: c :: (s ++ ['\r']) := fun hp =>
      h ((prefix_append_cons_iff (s := c :: s) (by decide)).1 hp)
    rw [List.cons_append, strip_cons hr, strip_cons h, ih]
    rfl

theorem strip_returned {s t : Text} (h : Returned s t) : Returned (strip s) (strip t) :=
  returned_of_rewrite (count_strip_le '\r') (fun s _ => .inr (strip_return s)) h

/-- A delay keeps nothing of the rest of its line. -/
theorem materialize_returned {s t : Text} (h : Returned s t) :
    Returned (Pass.warps.rewriteLine s) (Pass.warps.rewriteLine t) := by
  refine returned_of_rewrite (count_materialize_le (by decide)) ?_ h
  intro s _
  by_cases hd : Delay (s ++ ['\r'])
  · obtain ⟨indent, seconds, rest, hi, hne, hs, he⟩ := hd
    obtain ⟨rest', rfl, -⟩ := exists_of_return he (by decide)
    rw [he, materialize_delay hi hne hs, materialize_delay hi hne hs]
    exact .inl rfl
  · have hs : ¬ Delay s := by
      rintro ⟨indent, seconds, rest, hi, hne, hs, rfl⟩
      exact hd ⟨indent, seconds, rest ++ ['\r'], hi, hne, hs, by simp⟩
    rw [materialize_eq_self hd, materialize_eq_self hs]
    exact .inr rfl

theorem lineEnd_of_return {s : Text} (h : LineEnd (s ++ ['\r'])) : LineEnd s := by
  obtain ⟨blanks, hb, he | he⟩ := h
  · exact absurd (hb '\r' (by rw [← he]; simp)) (by decide)
  · obtain ⟨rfl, -⟩ := List.append_inj' he rfl
    exact ⟨s, hb, .inl rfl⟩

theorem terminate_returned {s t : Text} (h : Returned s t) :
    Returned (Pass.ends.rewriteLine s) (Pass.ends.rewriteLine t) := by
  refine returned_of_rewrite (fun s => Nat.le_of_eq (count_terminate (by decide) s)) ?_ h
  intro s hr
  refine .inr ?_
  by_cases ho : OpenStatement (s ++ ['\r'])
  · obtain ⟨a, u, hu, he⟩ := ho
    obtain ⟨v, rfl, rfl⟩ := exists_of_return he (by decide)
    rw [he, terminate_open hu, terminate_open (lineEnd_of_return hu)]
    simp
  · have hs : ¬ OpenStatement s := by
      rintro ⟨a, u, ⟨blanks, hb, he⟩, rfl⟩
      obtain rfl : u = blanks := he.resolve_right (by rintro rfl; simp at hr)
      exact ho ⟨a, u ++ ['\r'], ⟨u, hb, .inr rfl⟩, by simp⟩
    rw [terminate_eq_self ho, terminate_eq_self hs]

theorem type_returned {s t : Text} (h : Returned s t) :
    Returned (Pass.addresses.rewriteLine s) (Pass.addresses.rewriteLine t) := by
  refine returned_of_rewrite (fun s => Nat.le_of_eq (count_typed (by decide) none s)) ?_ h
  intro s _
  exact .inr (typed_split (by decide) (by decide) (by decide) none s [])

/-- The return is white space: it does not begin a statement. -/
theorem renormalize_returned {s t : Text} (h : Returned s t) :
    Returned (Pass.depths.rewriteLine s) (Pass.depths.rewriteLine t) := by
  refine returned_of_rewrite (count_renormalize_le (by decide)) ?_ h
  intro s _
  refine .inr ?_
  by_cases hd : Shallow (s ++ ['\r'])
  · obtain ⟨indent, c, r, hi, hl, hc, he⟩ := hd
    have hne : c ≠ '\r' := by
      rintro rfl
      exact absurd hc (by decide)
    obtain ⟨r', rfl, rfl⟩ := exists_of_return he hne
    rw [he, renormalize_shallow hi hl hc, renormalize_shallow hi hl hc]
    simp
  · have hs : ¬ Shallow s := by
      rintro ⟨indent, c, r, hi, hl, hc, rfl⟩
      exact hd ⟨indent, c, r ++ ['\r'], hi, hl, hc, by simp⟩
    rw [renormalize_eq_self hd, renormalize_eq_self hs]

theorem finish_returned {s t : Text} (h : Returned s t) : Returned (finish s) (finish t) :=
  renormalize_returned (type_returned (terminate_returned (materialize_returned h)))

/-! ## Delayed calls -/

/-- The return goes with the delay. -/
theorem delayedCall_return {s : Text} : DelayedCall (s ++ ['\r']) ↔ DelayedCall s := by
  obtain ⟨mark, hmark⟩ : ∃ mark, callMark = mark ++ [' '] := ⟨") Time delay:".toList, by decide⟩
  constructor
  · intro ⟨indent, name, args, delay, hi, hn, h⟩
    rw [hmark, ← List.append_assoc, List.append_assoc _ [' ']] at h
    obtain ⟨delay', rfl, -⟩ := exists_of_return h (by decide)
    exact ⟨indent, name, args, delay', hi, hn, by rw [hmark]; simp⟩
  · rintro ⟨indent, name, args, delay, hi, hn, rfl⟩
    exact ⟨indent, name, args, delay ++ ['\r'], hi, hn, by simp⟩

theorem Returned.delayedCall_iff {s t : Text} (h : Returned s t) : DelayedCall t ↔ DelayedCall s := by
  rcases h.ending with rfl | rfl
  · rfl
  · exact delayedCall_return

/-- A line becomes the same statements, but for returns. -/
theorem statements_returned {s t : Text} (hn : '\n' ∉ s) (h : Returned s t) :
    (statements t).map withoutReturns = statements s := by
  have hfinish : ∀ u v, Returned u v → withoutReturns (finish v) = finish u := fun u v huv =>
    (finish_returned huv).withoutReturns_eq
  have hstrip := strip_returned h
  have hns := newline_not_mem_strip hn
  rw [statements, statements]
  generalize strip s = u at hstrip hns
  generalize strip t = v at hstrip
  by_cases hd : DelayedCall u
  · obtain ⟨indent, name, args, delay, hi, hname, hlast, rfl⟩ := hd.exists_last
    obtain ⟨delay', rfl, hdelay⟩ := hstrip.exists_append
    have hlast' : ¬ callMark <:+: delay' := mt (hdelay.infix_iff (by simp [callMark]) (by decide)).1 hlast
    have hnv := mt (hstrip.mem_iff (c := '\n') (by decide)).1 hns
    have hbare := hstrip.bare
    simp only [List.mem_append, List.mem_cons, not_or] at hbare
    obtain ⟨⟨⟨⟨hri, hrn⟩, -, hra⟩, -⟩, -⟩ := hbare
    have hfirst : Returned (indent ++ delayMark ++ delay) (indent ++ delayMark ++ delay') := by
      refine hdelay.append ?_
      simp only [List.mem_append, not_or]
      exact ⟨hri, by decide⟩
    have hsecond : '\r' ∉ indent ++ level ++ name ++ '(' :: args ++ [')'] := by
      simp only [List.mem_append, List.mem_cons, not_or]
      exact ⟨⟨⟨⟨hri, by decide⟩, hrn⟩, by decide, hra⟩, by decide⟩
    rw [lines_reorder hi hname hlast hns, lines_reorder hi hname hlast' hnv]
    simp only [List.map_cons, List.map_nil, hfinish _ _ hfirst, hfinish _ _ (Returned.refl hsecond)]
  · have hnv := mt (hstrip.mem_iff (c := '\n') (by decide)).1 hns
    rw [lines_reorder_eq_self hd hns, lines_reorder_eq_self (mt hstrip.delayedCall_iff.1 hd) hnv]
    simp only [List.map_cons, List.map_nil, hfinish _ _ hstrip]

/-! ## Traces -/

/-- Carriage returns at the ends of the lines of a trace change nothing in its statements but for such returns. -/
theorem transform_withReturns {x : Text} (h : '\r' ∉ x) :
    withoutReturns (transform (withReturns x)).text = (transform x).text := by
  revert h
  refine lines_induction
    (P := fun x => '\r' ∉ x → withoutReturns (transform (withReturns x)).text = (transform x).text) ?line ?more x
  case line =>
    intro l hn hr
    rw [withReturns_of_not_mem hn, transform_line hn, withoutReturns_unlines, statements_returned hn (Returned.refl hr)]
  case more =>
    intro l s hn ih h
    simp only [List.mem_append, List.mem_cons, not_or] at h
    obtain ⟨hr, -, hs⟩ := h
    have hreturn : '\n' ∉ l ++ ['\r'] := by simp [hn]
    rw [withReturns_append_newline hn, transform_append_newline, transform_append_newline,
      withoutReturns_append_newline, ih hs, transform_line hn, transform_line hreturn, withoutReturns_unlines,
      statements_returned hn ⟨hr, .inr rfl⟩]

/-- A split call, a blank line and a delay. -/
theorem transform_withReturns_of_lines :
    '\r' ∉ "f(0xA,1) Time delay: 2 s\n  \n\tTime delay: 3 s".toList ∧
      withoutReturns (transform (withReturns "f(0xA,1) Time delay: 2 s\n  \n\tTime delay: 3 s".toList)).text =
        (transform "f(0xA,1) Time delay: 2 s\n  \n\tTime delay: 3 s".toList).text :=
  ⟨by decide, transform_withReturns (by decide)⟩

end Replay.Trace
