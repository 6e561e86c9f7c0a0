/-
  Replay.Proofs.Trace.Expressions — the six passes as expressions.

  A trace is rewritten by expressions, each of which replaces every match of a pattern in
  the text as it stands; in their patterns, line starts and line ends are those of every
  line. The rules of the passes say the same by the parts of a line. For every pass, the
  texts that its pattern takes are those of the shape that its rule finds, and the way that
  the pattern prefers cuts them into the same parts (`Spells`). Only one pattern has a
  choice: a call that several delays follow ends at the last of them.

  Proved here: `delays_takes`, `delays_way` and their likes for every pass, `spells_waits`,
  `spells_delays`, `spells_warps`, `spells_ends`, `spells_addresses`, `spells_depths`.
-/

import Replay.Proofs.Text.Expression
import Replay.Proofs.Trace.Addresses

namespace Replay

open Text

namespace Trace

open Pattern

/-! ## The expressions -/

/-- The class `[^\n]`, also written `.`. -/
def exceptNewline (c : Char) : Bool := c ≠ '\n'

/-- `\*wait\* ` becomes nothing. -/
def waitsExpression : Expression where
  pattern := literal waitMark
  template := []
  consumes := rfl

/-- A call, from its name to a closing bracket: `[A-Za-z_][A-Za-z0-9_.]*\(.*\)`. -/
def callPattern : Pattern :=
  chain [one isCallStart, many none isCallChar, one (· = '('), many none exceptNewline, one (· = ')')]

/-- `^([ \t]*)([A-Za-z_][A-Za-z0-9_.]*\(.*\)) (Time delay: [^\n]*)$` becomes `${1}${3}\n${1}    ${2}`. -/
def delaysExpression : Expression where
  pattern := chain [
    lineStart,
    group (many none isBlank),
    group callPattern,
    one (· = ' '),
    group (chain [literal delayMark, many none exceptNewline]),
    lineEnd]
  template := [.group 1, .group 3, .text ['\n'], .group 1, .text level, .group 2]
  consumes := rfl

/-- `^([ \t]*)Time delay: (\d+) [^\n]*$` becomes `${1}vm.warp(block.timestamp + ${2});`. -/
def warpsExpression : Expression where
  pattern := chain [
    lineStart,
    group (many none isBlank),
    literal delayMark,
    group (several isDigit),
    one (· = ' '),
    many none exceptNewline,
    lineEnd]
  template := [.group 1, .text warpHead, .group 2, .text [')', ';']]
  consumes := rfl

/-- `\)([ \t]*\r?)$` becomes `);${1}`. -/
def endsExpression : Expression where
  pattern := chain [one (· = ')'), group (chain [many none isBlank, many (some 1) (· = '\r')]), lineEnd]
  template := [.text [')', ';'], .group 1]
  consumes := rfl

/-- `\b0x([0-9a-fA-F]+),` becomes `address(0x${1}),`. -/
def addressesExpression : Expression where
  pattern := chain [wordEdge, literal ['0', 'x'], group (several isHex), one (· = ',')]
  template := [.text addressHead, .group 1, .text [')', ',']]
  consumes := rfl

/-- `^[ \t]{0,7}(\S)` becomes `        ${1}`. -/
def depthsExpression : Expression where
  pattern := chain [lineStart, many (some 7) isBlank, group (one fun c => !isSpace c)]
  template := [.text depth, .group 1]
  consumes := rfl

/-! ## Ends of lines -/

/-- A line does not go on behind its end. -/
theorem eq_nil_of_atLineEnd {r : Text} (h : atLineEnd r = true) (hn : '\n' ∉ r) : r = [] := by
  cases r with
  | nil => rfl
  | cons c r =>
    have hc : c = '\n' := by simpa [atLineEnd] using h
    simp [hc] at hn

theorem exceptNewline_of_not_mem {s : Text} (h : '\n' ∉ s) : ∀ c ∈ s, exceptNewline c = true := by
  intro c hc
  refine decide_eq_true ?_
  rintro rfl
  exact h hc

/-! ## Delayed calls -/

theorem call_takes {before : Option Char} {t r : Text} (h : callPattern.Takes before t r) :
    ∃ name args, IsCallName name ∧ t = name ++ '(' :: args ++ [')'] := by
  simp only [callPattern, chain, Takes, decide_eq_true_eq, exists_eq_left] at h
  obtain ⟨_, _, rfl, ⟨c, hc, rfl⟩, name, _, rfl, ⟨hname, -⟩, _, _, rfl, rfl, args, _, rfl, -, _, _, rfl, rfl, rfl⟩ := h
  exact ⟨c :: name, args, ⟨hc, hname⟩, by simp⟩

theorem delays_takes {before : Option Char} {t r : Text} (h : delaysExpression.pattern.Takes before t r) :
    atLineStart before = true ∧ DelayedCall (t ++ r) := by
  simp only [delaysExpression, chain, Takes, takes_literal, decide_eq_true_eq, exists_eq_left] at h
  obtain ⟨_, _, rfl, ⟨rfl, hstart⟩, indent, _, rfl, ⟨hi, -⟩, _, _, rfl, hcall, _, _, rfl, rfl,
    _, _, rfl, ⟨_, _, rfl, rfl, delay, _, rfl, -, rfl⟩, _, _, rfl, ⟨rfl, -⟩, rfl⟩ := h
  obtain ⟨name, args, hname, rfl⟩ := call_takes hcall
  exact ⟨hstart, indent, name, args, delay ++ r, hi, hname, by simp [callMark]⟩

/-- Behind the last delay no other one begins. -/
theorem no_later_mark {delay u v : Text} (hlast : ¬ callMark <:+: delay) (hu : u ≠ [])
    (hv : callMark ++ delay = u ++ v) : ¬ callMark <+: v := by
  intro h
  obtain ⟨r, rfl⟩ := h
  obtain ⟨c, u, rfl⟩ := List.exists_cons_of_ne_nil hu
  have hrest : ' ' :: delayMark ++ delay = u ++ (callMark ++ r) := (List.cons.inj hv).2
  have hinfix : callMark <:+: ' ' :: delayMark ++ delay := ⟨u, r, by rw [hrest, List.append_assoc]⟩
  rw [callMark, infix_skip (by decide)] at hinfix
  exact hlast hinfix

theorem delays_way {indent name args delay : Text} (hi : Blanks indent) (hname : IsCallName name)
    (hlast : ¬ callMark <:+: delay) (hn : '\n' ∉ indent ++ name ++ '(' :: args ++ callMark ++ delay) :
    (delaysExpression.pattern.ways none (indent ++ name ++ '(' :: args ++ callMark ++ delay)).head? =
      some ⟨indent ++ name ++ '(' :: args ++ callMark ++ delay,
        [indent, name ++ '(' :: args ++ [')'], delayMark ++ delay]⟩ := by
  obtain ⟨c, name, rfl⟩ := List.exists_cons_of_ne_nil (show name ≠ [] by rintro rfl; exact hname)
  have hparts : indent ++ (c :: name) ++ '(' :: args ++ callMark ++ delay =
      indent ++ c :: (name ++ '(' :: (args ++ ')' :: ' ' :: (delayMark ++ delay))) := by
    simp [callMark]
  have hline : (∀ d ∈ args, exceptNewline d = true) ∧ ∀ d ∈ delay, exceptNewline d = true := by
    simp only [List.mem_append, List.mem_cons, not_or] at hn
    exact ⟨exceptNewline_of_not_mem hn.1.1.2.2, exceptNewline_of_not_mem hn.2⟩
  rw [hparts, ways_eq_goOn, delaysExpression, goOn_chain_cons, goOn_lineStart rfl, goOn_chain_cons, goOn_group]
  refine head?_run (by simp) hi (fails_head (isBlank_eq_false (not_isSpace_of_isCallStart hname.1)) _) ?_
  rw [goOn_chain_cons, goOn_group, callPattern, goOn_chain_cons, goOn_one hname.1, goOn_chain_cons]
  refine head?_run (by simp) hname.2 (fails_head (by decide) _) ?_
  rw [goOn_chain_cons, goOn_one (by decide), goOn_chain_cons]
  refine head?_longest hline.1 ?_ ?_
  · -- Behind longer arguments there is no delay.
    intro u v hu hv
    rw [List.eq_nil_iff_forall_not_mem]
    intro x hx
    rw [goOn_chain_cons] at hx
    obtain ⟨_, _, rfl, ⟨_, hclose, h₁⟩, hx⟩ := exists_of_mem_goOn hx
    rw [goOn_chain_nil, goOn_chain_cons] at hx
    obtain ⟨_, _, rfl, ⟨_, hspace, h₂⟩, hx⟩ := exists_of_mem_goOn hx
    rw [goOn_chain_cons, goOn_group, goOn_chain_cons] at hx
    obtain ⟨_, r, rfl, hmark, -⟩ := exists_of_mem_goOn hx
    obtain rfl := of_decide_eq_true hclose
    obtain rfl := of_decide_eq_true hspace
    have hmore : callMark <+: ')' :: ' ' :: (delayMark ++ r) := List.prefix_append callMark r
    rw [h₁, h₂, takes_literal.1 hmark] at hv
    exact no_later_mark hlast hu hv hmore
  rw [goOn_chain_cons, goOn_one (by decide), goOn_chain_nil, goOn_chain_cons, goOn_one (by decide), goOn_chain_cons,
    goOn_group, goOn_chain_cons, goOn_literal, goOn_chain_cons, ← List.append_nil delay]
  refine head?_run (by simp) hline.2 (by simp) ?_
  rw [goOn_chain_nil, goOn_chain_cons, goOn_lineEnd _ rfl, goOn_chain_nil]
  simp

/-! ## Delays -/

theorem warps_takes {before : Option Char} {t r : Text} (h : warpsExpression.pattern.Takes before t r) :
    atLineStart before = true ∧ Delay (t ++ r) := by
  simp only [warpsExpression, chain, Takes, takes_literal, takes_several, decide_eq_true_eq, exists_eq_left] at h
  obtain ⟨_, _, rfl, ⟨rfl, hstart⟩, indent, _, rfl, ⟨hi, -⟩, _, _, rfl, rfl, seconds, _, rfl, ⟨hne, hs⟩,
    _, _, rfl, rfl, rest, _, rfl, -, _, _, rfl, ⟨rfl, -⟩, rfl⟩ := h
  exact ⟨hstart, indent, seconds, rest ++ r, hi, hne, hs, by simp⟩

theorem warps_way {indent seconds rest : Text} (hi : Blanks indent) (hne : seconds ≠ [])
    (hs : ∀ c ∈ seconds, isDigit c = true) (hn : '\n' ∉ rest) :
    (warpsExpression.pattern.ways none (indent ++ delayMark ++ seconds ++ ' ' :: rest)).head? =
      some ⟨indent ++ delayMark ++ seconds ++ ' ' :: rest, [indent, seconds]⟩ := by
  have hparts : indent ++ delayMark ++ seconds ++ ' ' :: rest = indent ++ (delayMark ++ (seconds ++ ' ' :: rest)) := by
    simp
  rw [hparts, ways_eq_goOn, warpsExpression, goOn_chain_cons, goOn_lineStart rfl, goOn_chain_cons, goOn_group]
  refine head?_run (by simp) hi (fails_head (c := 'T') (by decide) _) ?_
  rw [goOn_chain_cons, goOn_literal, goOn_chain_cons, goOn_group]
  refine head?_several hne hs (fails_head (by decide) _) ?_
  rw [goOn_chain_cons, goOn_one (by decide), goOn_chain_cons, ← List.append_nil rest]
  refine head?_run (by simp) (exceptNewline_of_not_mem hn) (by simp) ?_
  rw [goOn_chain_cons, goOn_lineEnd _ rfl, goOn_chain_nil]
  simp

/-! ## Statement ends -/

theorem ends_takes {before : Option Char} {t r : Text} (h : endsExpression.pattern.Takes before t r)
    (hn : '\n' ∉ t ++ r) : ∃ u, t ++ r = ')' :: u ∧ LineEnd u := by
  simp only [endsExpression, chain, Takes, decide_eq_true_eq, exists_eq_left] at h
  obtain ⟨_, _, rfl, rfl, _, _, rfl, ⟨blanks, _, rfl, ⟨hb, -⟩, cr, _, rfl, ⟨hcr, hone⟩, rfl⟩, _, _, rfl,
    ⟨rfl, hend⟩, rfl⟩ := h
  obtain rfl : r = [] := eq_nil_of_atLineEnd hend fun h => hn (List.mem_append_right _ h)
  refine ⟨blanks ++ cr, by simp, blanks, hb, ?_⟩
  cases cr with
  | nil => exact .inl (List.append_nil _)
  | cons c cr =>
    have hlength := hone 1 rfl
    rw [List.length_cons] at hlength
    obtain rfl : cr = [] := List.length_eq_zero_iff.1 (by omega)
    obtain rfl : c = '\r' := by simpa using hcr
    exact .inr rfl

theorem ends_way (before : Option Char) {u : Text} (h : LineEnd u) :
    (endsExpression.pattern.ways before (')' :: u)).head? = some ⟨')' :: u, [u]⟩ := by
  rw [ways_eq_goOn, endsExpression, goOn_chain_cons, goOn_one (by decide), goOn_chain_cons, goOn_group,
    goOn_chain_cons]
  obtain ⟨blanks, hb, rfl | rfl⟩ := h
  · rw [← List.append_nil u]
    refine head?_run (by simp) hb (by simp) ?_
    rw [goOn_chain_cons]
    refine head?_run (t := []) (r := []) (by simp) (by simp) (by simp) ?_
    rw [goOn_chain_nil, goOn_chain_cons, goOn_lineEnd _ rfl, goOn_chain_nil]
    simp
  · refine head?_run (by simp) hb (fails_head (by decide) _) ?_
    rw [goOn_chain_cons]
    refine head?_run (t := ['\r']) (r := []) (by simp) (by simp) (by simp) ?_
    rw [goOn_chain_nil, goOn_chain_cons, goOn_lineEnd _ rfl, goOn_chain_nil]
    simp

/-! ## Addresses -/

theorem atWordEdge_of_word {c : Char} (hc : isWord c = true) (before : Option Char) (s : Text) :
    atWordEdge before (c :: s) = startsWord before := by
  cases before with
  | none => simp [atWordEdge, startsWord, hc]
  | some d => cases hd : isWord d <;> simp [atWordEdge, startsWord, hc, hd]

theorem addresses_takes {before : Option Char} {t r : Text} (h : addressesExpression.pattern.Takes before t r) :
    Argument before (t ++ r) := by
  simp only [addressesExpression, chain, Takes, takes_literal, takes_several, decide_eq_true_eq, exists_eq_left] at h
  obtain ⟨_, _, rfl, ⟨rfl, hedge⟩, _, _, rfl, rfl, digits, _, rfl, ⟨hne, hd⟩, _, _, rfl, rfl, rfl⟩ := h
  refine ⟨digits, r, ?_, hne, hd, by simp⟩
  rw [← atWordEdge_of_word (c := '0') (by decide)]
  simpa using hedge

theorem addresses_way {before : Option Char} {digits r : Text} (hb : startsWord before = true) (hne : digits ≠ [])
    (hd : ∀ c ∈ digits, isHex c = true) :
    (addressesExpression.pattern.ways before ('0' :: 'x' :: digits ++ ',' :: r)).head? =
      some ⟨'0' :: 'x' :: digits ++ [','], [digits]⟩ := by
  have hedge : atWordEdge before (['0', 'x'] ++ (digits ++ ',' :: r)) = true := by
    rw [← hb]
    exact atWordEdge_of_word (by decide) before _
  have hparts : '0' :: 'x' :: digits ++ ',' :: r = ['0', 'x'] ++ (digits ++ ',' :: r) := rfl
  rw [hparts, ways_eq_goOn, addressesExpression, goOn_chain_cons, goOn_wordEdge hedge, goOn_chain_cons, goOn_literal,
    goOn_chain_cons, goOn_group]
  refine head?_several hne hd (fails_head (by decide) _) ?_
  rw [goOn_chain_cons, goOn_one (by decide), goOn_chain_nil]
  simp

/-! ## Indentation -/

theorem depths_takes {before : Option Char} {t r : Text} (h : depthsExpression.pattern.Takes before t r) :
    atLineStart before = true ∧ Shallow (t ++ r) := by
  simp only [depthsExpression, chain, Takes] at h
  obtain ⟨_, _, rfl, ⟨rfl, hstart⟩, indent, _, rfl, ⟨hi, hseven⟩, _, _, rfl, ⟨c, hc, rfl⟩, rfl⟩ := h
  exact ⟨hstart, indent, c, r, hi, Nat.lt_succ_of_le (hseven 7 rfl), by simpa using hc, by simp⟩

theorem depths_way {indent r : Text} {c : Char} (hi : Blanks indent) (hd : indent.length < depth.length)
    (hc : isSpace c = false) :
    (depthsExpression.pattern.ways none (indent ++ c :: r)).head? = some ⟨indent ++ [c], [[c]]⟩ := by
  rw [ways_eq_goOn, depthsExpression, goOn_chain_cons, goOn_lineStart rfl, goOn_chain_cons]
  refine head?_run ?_ hi (fails_head (isBlank_eq_false hc) _) ?_
  · intro n hn
    obtain rfl := Option.some.inj hn
    exact Nat.le_of_lt_succ hd
  rw [goOn_chain_cons, goOn_group, goOn_one (by simp [hc]), goOn_chain_nil]
  simp

/-! ## The rules -/

/-- On a line, the expression finds what the rule does. -/
def Spells (e : Expression) (rule : Rule Text) : Prop :=
  ∀ before s, before ≠ some '\n' → '\n' ∉ s → e.rule before s = rule before s

/-- An expression spells a rule if both find something in texts of one shape, and the same in those. -/
theorem spells_of_shape {e : Expression} {rule : Rule Text} (Shape : Option Char → Text → Prop)
    (hnone : ∀ before s, ¬ Shape before s → rule before s = none)
    (htakes : ∀ before t r, before ≠ some '\n' → '\n' ∉ t ++ r → e.pattern.Takes before t r → Shape before (t ++ r))
    (hfound : ∀ before s, '\n' ∉ s → Shape before s → e.rule before s = rule before s) : Spells e rule := by
  intro before s hb hn
  by_cases h : Shape before s
  · exact hfound before s hn h
  · rw [hnone before s h]
    refine Expression.rule_eq_none_iff.2 fun t r hs ht => h ?_
    subst hs
    exact htakes before t r hb hn ht

/-- The same for a rule that asks for the start of a line. -/
theorem spells_of_anchored {e : Expression} {rule : Rule Text} {Shape : Text → Prop}
    (hanchored : ∀ c s, rule (some c) s = none) (hnone : ∀ s, rule none s = none ↔ ¬ Shape s)
    (htakes : ∀ before t r, e.pattern.Takes before t r → atLineStart before = true ∧ Shape (t ++ r))
    (hfound : ∀ s, '\n' ∉ s → Shape s → e.rule none s = rule none s) : Spells e rule := by
  refine spells_of_shape (fun before s => before = none ∧ Shape s) ?_ ?_ ?_
  · intro before s h
    cases before with
    | none => exact (hnone s).2 fun hs => h ⟨rfl, hs⟩
    | some c => exact hanchored c s
  · intro before t r hb _ ht
    obtain ⟨hstart, hs⟩ := htakes before t r ht
    exact ⟨by simpa [atLineStart, hb] using hstart, hs⟩
  · intro _ s hn h
    obtain ⟨rfl, hs⟩ := h
    exact hfound s hn hs

theorem spells_waits : Spells waitsExpression Trace.waits := by
  refine spells_of_shape (fun _ s => waitMark <+: s) (fun _ _ => waits_eq_none_iff.2) ?_ ?_
  · intro _ t r _ _ ht
    exact ⟨r, by rw [takes_literal.1 ht]⟩
  · intro before _ _ h
    obtain ⟨r, rfl⟩ := h
    have hway : (waitsExpression.pattern.ways before (waitMark ++ r)).head? = some ⟨waitMark, []⟩ := by
      rw [ways_eq_goOn, waitsExpression, goOn_literal]
      rfl
    rw [Expression.rule_eq_some hway, Trace.waits, after?_eq_some_iff.2 rfl]
    rfl

theorem spells_delays : Spells delaysExpression Trace.delays := by
  refine spells_of_anchored delays_anchored (fun _ => delays_eq_none_iff) (fun _ _ _ => delays_takes) ?_
  intro s hn h
  obtain ⟨indent, name, args, delay, hi, hname, hlast, rfl⟩ := h.exists_last
  rw [Expression.rule_eq_some (delays_way hi hname hlast hn), delays_of_last hi hname hlast]
  simp [whole, fill, delaysExpression]

theorem spells_warps : Spells warpsExpression Trace.warps := by
  refine spells_of_anchored warps_anchored (fun _ => warps_eq_none_iff) (fun _ _ _ => warps_takes) ?_
  intro _ hn h
  obtain ⟨indent, seconds, rest, hi, hne, hs, rfl⟩ := h
  have hrest : '\n' ∉ rest := fun h => hn (by simp [h])
  rw [Expression.rule_eq_some (warps_way hi hne hs hrest), warps_of_delay hi hne hs]
  simp [whole, fill, warpsExpression]

theorem spells_ends : Spells endsExpression Trace.ends := by
  refine spells_of_shape (fun _ s => ∃ u, s = ')' :: u ∧ LineEnd u) ?_ ?_ ?_
  · intro before s h
    cases s with
    | nil => rfl
    | cons c s => exact ends_eq_none_iff.2 fun ⟨hc, hs⟩ => h ⟨s, by rw [hc], hs⟩
  · intro _ t r _ hn ht
    exact ends_takes ht hn
  · intro before _ _ h
    obtain ⟨u, rfl, hu⟩ := h
    rw [Expression.rule_eq_some (ends_way before hu), Trace.ends, if_pos (isLineEnd_iff.2 hu)]
    simp [whole, fill, endsExpression]

theorem spells_addresses : Spells addressesExpression Trace.addresses := by
  refine spells_of_shape Argument (fun _ _ => addresses_eq_none_iff.2) (fun _ _ _ _ _ => addresses_takes) ?_
  intro before _ _ h
  obtain ⟨digits, r, hb, hne, hd, rfl⟩ := h
  rw [Expression.rule_eq_some (addresses_way hb hne hd), addresses_of_argument hb hne hd]
  simp [fill, addressesExpression]

theorem spells_depths : Spells depthsExpression Trace.depths := by
  refine spells_of_anchored depths_anchored (fun _ => depths_eq_none_iff) (fun _ _ _ => depths_takes) ?_
  intro _ _ h
  obtain ⟨indent, c, r, hi, hd, hc, rfl⟩ := h
  rw [Expression.rule_eq_some (depths_way hi hd hc), depths_of_shallow hi hd hc]
  simp [fill, depthsExpression]

end Trace
end Replay
