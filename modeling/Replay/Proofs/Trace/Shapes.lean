/-
  Replay.Proofs.Trace.Shapes — what becomes of the shapes of a line in the later passes.

  The last four passes (`warps`, `ends`, `addresses`, `depths`) make one line of a line.
  Each of them removes the shape that it matches, and none brings back the shape of an
  earlier one. They neither make nor remove wait marks. A delayed call can come about in
  one way: an address that stands where a call has its name (`AddressCall`) is typed, and
  `address(` opens a call.

  Proved here: per pass and shape what holds of the output (`delay_terminate`,
  `openStatement_type`, `delayedCall_type` and so on), and `count_finish_le`.
-/

import Replay.Proofs.Trace.Addresses

namespace Replay.Trace

open Text Pass

/-- What the last four passes make of a line. -/
def finish (l : Text) : Text :=
  Pass.depths.rewriteLine (Pass.addresses.rewriteLine (Pass.ends.rewriteLine (Pass.warps.rewriteLine l)))

/-- `p`, and somewhere behind it the end of a call that a delay follows. -/
def Opened (p s : Text) : Prop := ∃ r, s = p ++ r ∧ callMark <:+: r

/-- A hexadecimal argument stands where a call has its name, or the last part of it. -/
def AddressCall (s : Text) : Prop :=
  ∃ indent stem digits, Blanks indent ∧ (stem = [] ∨ IsCallName stem ∧ stem.getLast? = some '.') ∧
    digits ≠ [] ∧ (∀ c ∈ digits, isHex c = true) ∧
    Opened (indent ++ stem ++ '0' :: 'x' :: digits ++ [',']) s

theorem delayedCall_iff {s : Text} :
    DelayedCall s ↔ ∃ indent name, Blanks indent ∧ IsCallName name ∧ Opened (indent ++ name ++ ['(']) s := by
  constructor
  · intro ⟨indent, name, args, delay, hi, hn, hs⟩
    exact ⟨indent, name, hi, hn, args ++ callMark ++ delay, by simp [hs], args, delay, rfl⟩
  · intro ⟨indent, name, hi, hn, r, hs, args, delay, hr⟩
    exact ⟨indent, name, args, delay, hi, hn, by simp [hs, ← hr]⟩

theorem Opened.holds_mark {p s : Text} (h : Opened p s) : callMark <:+: s := by
  obtain ⟨r, rfl, hr⟩ := h
  exact List.infix_append_of_infix_right hr

theorem DelayedCall.holds_mark {s : Text} (h : DelayedCall s) : callMark <:+: s := by
  obtain ⟨indent, name, -, -, ho⟩ := delayedCall_iff.1 h
  exact ho.holds_mark

theorem AddressCall.holds_mark {s : Text} (h : AddressCall s) : callMark <:+: s := by
  obtain ⟨indent, stem, digits, -, -, -, -, ho⟩ := h
  exact ho.holds_mark

/-! ## Characters of the parts -/

theorem isCallChar_of_isCallStart {c : Char} (h : isCallStart c = true) : isCallChar c = true := by
  simp [isCallChar, h]

theorem IsCallName.chars {name : Text} (h : IsCallName name) : ∀ c ∈ name, isCallChar c = true := by
  cases name with
  | nil => exact absurd h id
  | cons d r =>
    intro c hc
    rcases List.mem_cons.1 hc with rfl | hc
    · exact isCallChar_of_isCallStart h.1
    · exact h.2 c hc

theorem stem_chars {stem : Text} (h : stem = [] ∨ IsCallName stem ∧ stem.getLast? = some '.') :
    ∀ c ∈ stem, isCallChar c = true := by
  rcases h with rfl | ⟨h, -⟩
  · intro c hc
    cases hc
  · exact h.chars

theorem startsWord_blanks {before : Option Char} {indent : Text} (hi : Blanks indent) (hb : startsWord before = true) :
    startsWord (behind before indent) = true := by
  induction indent generalizing before with
  | nil => exact hb
  | cons c indent ih =>
    rw [behind_cons]
    refine ih (fun d hd => hi d (List.mem_cons_of_mem c hd)) ?_
    rcases isBlank_iff.1 (hi c List.mem_cons_self) with rfl | rfl
    · decide
    · decide

/-! ## Delays -/

theorem not_delay_materialize (s : Text) : ¬ Delay (Pass.warps.rewriteLine s) := by
  by_cases h : Delay s
  · obtain ⟨indent, seconds, rest, hi, hne, hs, rfl⟩ := h
    rw [materialize_delay hi hne hs]
    intro hd
    obtain ⟨indent', seconds', rest', hi', -, -, he⟩ := hd
    rw [List.append_assoc, List.append_assoc, List.append_assoc, List.append_assoc] at he
    obtain ⟨-, he⟩ := run_unique (p := isBlank) he hi (fails_head (c := 'v') (by decide) _) hi'
      (fails_head (c := 'T') (by decide) _)
    exact absurd (List.cons.inj (show 'v' :: _ = 'T' :: _ from he)).1 (by decide)
  · rwa [materialize_eq_self h]

/-- The statement that moves the clock holds no call with a delay behind it. -/
theorem not_infix_materialize {s : Text} (h : Delay s) : ¬ callMark <:+: Pass.warps.rewriteLine s := by
  obtain ⟨indent, seconds, rest, hi, hne, hs, rfl⟩ := h
  have hskip : ')' ∉ indent ++ warpHead ++ seconds := by
    simp only [List.mem_append, not_or]
    exact ⟨⟨run_not_mem hi (by decide), by decide⟩, run_not_mem hs (by decide)⟩
  rw [materialize_delay hi hne hs, callMark, infix_skip hskip]
  decide

theorem delayedCall_materialize {s : Text} :
    DelayedCall (Pass.warps.rewriteLine s) ↔ ¬ Delay s ∧ DelayedCall s := by
  by_cases h : Delay s
  · simp only [h, not_true_eq_false, false_and, iff_false]
    exact fun hd => not_infix_materialize h hd.holds_mark
  · simp [h, materialize_eq_self h]

theorem addressCall_materialize {s : Text} :
    AddressCall (Pass.warps.rewriteLine s) ↔ ¬ Delay s ∧ AddressCall s := by
  by_cases h : Delay s
  · simp only [h, not_true_eq_false, false_and, iff_false]
    exact fun hd => not_infix_materialize h hd.holds_mark
  · simp [h, materialize_eq_self h]

theorem marked_materialize {s : Text} : Marked (Pass.warps.rewriteLine s) ↔ ¬ Delay s ∧ Marked s := by
  by_cases h : Delay s
  · simp only [h, not_true_eq_false, false_and, iff_false]
    obtain ⟨indent, seconds, rest, hi, hne, hs, rfl⟩ := h
    rw [materialize_delay hi hne hs]
    have hstar : '*' ∉ indent ++ warpHead ++ seconds ++ [')', ';'] := by
      simp only [List.mem_append, not_or]
      exact ⟨⟨⟨run_not_mem hi (by decide), by decide⟩, run_not_mem hs (by decide)⟩, by decide⟩
    exact not_infix_of_not_mem hstar
  · simp [h, materialize_eq_self h]

/-! ## Statement ends -/

theorem terminate_cases (s : Text) :
    (∃ a t, LineEnd t ∧ s = a ++ ')' :: t ∧ Pass.ends.rewriteLine s = a ++ ')' :: ';' :: t) ∨
      ¬ OpenStatement s ∧ Pass.ends.rewriteLine s = s := by
  by_cases h : OpenStatement s
  · obtain ⟨a, t, ht, rfl⟩ := h
    exact .inl ⟨a, t, ht, rfl, terminate_open ht⟩
  · exact .inr ⟨h, terminate_eq_self h⟩

theorem not_openStatement_terminate (s : Text) : ¬ OpenStatement (Pass.ends.rewriteLine s) := by
  rcases terminate_cases s with ⟨a, t, ht, rfl, he⟩ | ⟨h, he⟩
  · rw [he]
    intro ho
    obtain ⟨b, u, hu, h⟩ := ho
    -- the new semicolon stands before the last bracket, so that bracket was in `t`
    have hsemi : ';' ∉ ')' :: u := by
      simpa using hu.not_mem (c := ';') (by decide) (by decide)
    obtain ⟨v, -, hv⟩ := append_eq_keep (a := a ++ [')']) (s := t) (by simpa using h) hsemi
    refine ht.not_mem (c := ')') (by decide) (by decide) ?_
    rw [hv]
    simp
  · rwa [he]

theorem prefix_terminate {p s : Text} (hp : ')' ∉ p) : p <+: Pass.ends.rewriteLine s ↔ p <+: s := by
  rcases terminate_cases s with ⟨a, t, ht, rfl, he⟩ | ⟨-, he⟩
  · rw [he]
    constructor
    · intro ⟨r, h⟩
      obtain ⟨u, rfl, -⟩ := append_eq_skip h hp
      exact ⟨u ++ ')' :: t, by simp⟩
    · intro ⟨r, h⟩
      obtain ⟨u, rfl, -⟩ := append_eq_skip h hp
      exact ⟨u ++ ')' :: ';' :: t, by simp⟩
  · rw [he]

/-- A mark that ends with two characters that no end of a line holds stands before it. -/
theorem infix_append_iff_of_last {m a z : Text} {e f : Char} (he : e ∉ z) (hf : ∀ c ∈ z.head?, c ≠ f) :
    m ++ [e, f] <:+: a ++ z ↔ m ++ [e, f] <:+: a := by
  constructor
  · intro ⟨u, v, h⟩
    obtain ⟨t, rfl, ht⟩ := append_eq_keep (a := u ++ m) (s := f :: v) (e := e) (b := a) (z := z)
      (by simpa using h) he
    cases t with
    | nil => exact absurd rfl (hf f (by rw [← show f :: v = z from ht]; rfl))
    | cons c t =>
      obtain ⟨rfl, -⟩ := List.cons.inj ht
      exact ⟨u, t, by simp⟩
  · exact List.infix_append_of_infix_left

theorem infix_terminate {m s : Text} {e f : Char} (hb : isBlank e = false) (hr : e ∉ [')', ';', '\r']) (hf : ')' ≠ f) :
    m ++ [e, f] <:+: Pass.ends.rewriteLine s ↔ m ++ [e, f] <:+: s := by
  rcases terminate_cases s with ⟨a, t, ht, rfl, he⟩ | ⟨-, he⟩
  · simp only [List.mem_cons, List.not_mem_nil, or_false, not_or] at hr
    have het := ht.not_mem hb hr.2.2
    rw [he, infix_append_iff_of_last (z := ')' :: ';' :: t) (by simp [hr, het]) (by simpa using hf),
      infix_append_iff_of_last (z := ')' :: t) (by simp [hr, het]) (by simpa using hf)]
  · rw [he]

theorem infix_callMark_terminate {s : Text} : callMark <:+: Pass.ends.rewriteLine s ↔ callMark <:+: s :=
  infix_terminate (m := ") Time delay".toList) (e := ':') (f := ' ') (by decide) (by decide) (by decide)

theorem marked_terminate {s : Text} : Marked (Pass.ends.rewriteLine s) ↔ Marked s :=
  infix_terminate (m := "*wait".toList) (e := '*') (f := ' ') (by decide) (by decide) (by decide)

theorem opened_terminate {p s : Text} (hp : ')' ∉ p) : Opened p (Pass.ends.rewriteLine s) ↔ Opened p s := by
  have hopened : ∀ s, Opened p s ↔ p <+: s ∧ callMark <:+: s := by
    intro s
    constructor
    · intro h
      have hi := h.holds_mark
      obtain ⟨r, rfl, -⟩ := h
      exact ⟨List.prefix_append p r, hi⟩
    · intro ⟨⟨r, hr⟩, hi⟩
      rw [← hr, callMark, infix_skip hp] at hi
      exact ⟨r, hr.symm, hi⟩
  rw [hopened, hopened, prefix_terminate hp, infix_callMark_terminate]

theorem delayedCall_terminate {s : Text} : DelayedCall (Pass.ends.rewriteLine s) ↔ DelayedCall s := by
  simp only [delayedCall_iff]
  refine exists_congr fun indent => exists_congr fun name => and_congr_right fun hi => and_congr_right fun hn => ?_
  refine opened_terminate ?_
  simp only [List.mem_append, not_or]
  exact ⟨⟨run_not_mem hi (by decide), run_not_mem hn.chars (by decide)⟩, by decide⟩

theorem addressCall_terminate {s : Text} : AddressCall (Pass.ends.rewriteLine s) ↔ AddressCall s := by
  refine exists_congr fun indent => exists_congr fun stem => exists_congr fun digits => and_congr_right fun hi =>
    and_congr_right fun hst => and_congr_right fun _ => and_congr_right fun hd => opened_terminate ?_
  simp only [List.mem_append, List.mem_cons, not_or]
  exact ⟨⟨⟨run_not_mem hi (by decide), run_not_mem (stem_chars hst) (by decide)⟩, by decide, by decide,
    run_not_mem hd (by decide)⟩, by decide, List.not_mem_nil⟩

theorem delay_iff_starts {s : Text} :
    Delay s ↔ ∃ indent seconds, Blanks indent ∧ seconds ≠ [] ∧ (∀ c ∈ seconds, isDigit c = true) ∧
      indent ++ delayMark ++ seconds ++ [' '] <+: s := by
  constructor
  · intro ⟨indent, seconds, rest, hi, hne, hs, h⟩
    exact ⟨indent, seconds, hi, hne, hs, rest, by rw [h]; simp⟩
  · intro ⟨indent, seconds, hi, hne, hs, rest, h⟩
    exact ⟨indent, seconds, rest, hi, hne, hs, by rw [← h]; simp⟩

theorem delay_terminate {s : Text} : Delay (Pass.ends.rewriteLine s) ↔ Delay s := by
  simp only [delay_iff_starts]
  refine exists_congr fun indent => exists_congr fun seconds => and_congr_right fun hi => and_congr_right fun _ =>
    and_congr_right fun hs => prefix_terminate ?_
  simp only [List.mem_append, not_or]
  exact ⟨⟨⟨run_not_mem hi (by decide), by decide⟩, run_not_mem hs (by decide)⟩, by decide⟩

/-! ## Addresses -/

theorem marked_type {s : Text} : Marked (Pass.addresses.rewriteLine s) ↔ Marked s := infix_typed untyped_wait none s

theorem delay_type {s : Text} (h : Delay (Pass.addresses.rewriteLine s)) : Delay s := by
  obtain ⟨indent, seconds, rest, hi, hne, hs, h⟩ := h
  have hq : '(' ∉ indent ++ delayMark ++ seconds := by
    simp only [List.mem_append, not_or]
    exact ⟨⟨run_not_mem hi (by decide), by decide⟩, run_not_mem hs (by decide)⟩
  obtain ⟨r, rfl, -⟩ := typed_reads h hq (by decide)
  exact ⟨indent, seconds, r, hi, hne, hs, rfl⟩

theorem typed_eq_self {before : Option Char} {s : Text} (h : '(' ∉ typed before s) : typed before s = s := by
  revert h
  refine typed_induction (P := fun before s => '(' ∉ typed before s → typed before s = s) ?nil ?kept ?argument before s
  case nil => exact fun _ _ => rfl
  case kept =>
    intro before c s hno ih h
    rw [typed_kept hno] at h ⊢
    rw [ih fun hm => h (List.mem_cons_of_mem c hm)]
  case argument =>
    intro before digits r hb hne hd _ h
    rw [typed_argument hb hne hd] at h
    exact absurd (List.mem_append_left _ (List.mem_append_left _ (by decide))) h

/-- Only what stands behind its last other character can end a line. -/
theorem openStatement_skip {a s : Text} {e : Char} (hb : isBlank e = false) (he : e ∉ [')', '\r']) :
    OpenStatement (a ++ e :: s) ↔ OpenStatement s := by
  simp only [List.mem_cons, List.not_mem_nil, or_false, not_or] at he
  constructor
  · intro ⟨b, t, ht, h⟩
    obtain ⟨u, -, rfl⟩ := append_eq_keep h (by simpa [he.1] using ht.not_mem hb he.2)
    exact ⟨u, t, ht, rfl⟩
  · intro ⟨b, t, ht, h⟩
    exact ⟨a ++ e :: b, t, ht, by simp [h]⟩

theorem openStatement_typed {before : Option Char} {s : Text} (h : OpenStatement (typed before s)) :
    OpenStatement s := by
  revert h
  refine typed_induction (P := fun before s => OpenStatement (typed before s) → OpenStatement s) ?nil ?kept ?argument
    before s
  case nil => exact fun _ h => h
  case kept =>
    intro before c s hno ih h
    rw [typed_kept hno, openStatement_cons] at h
    rw [openStatement_cons]
    rcases h with ⟨hc, ht⟩ | h
    · rw [typed_eq_self (ht.not_mem (by decide) (by decide))] at ht
      exact .inl ⟨hc, ht⟩
    · exact .inr (ih h)
  case argument =>
    intro before digits r hb hne hd ih h
    have hout : addressHead ++ digits ++ ')' :: ',' :: typed (some ',') r =
        (addressHead ++ digits ++ [')']) ++ ',' :: typed (some ',') r := by simp
    rw [typed_argument hb hne hd, hout, openStatement_skip (by decide) (by decide)] at h
    exact (openStatement_skip (by decide) (by decide)).2 (ih h)

theorem openStatement_type {s : Text} (h : OpenStatement (Pass.addresses.rewriteLine s)) : OpenStatement s :=
  openStatement_typed h

theorem eq_dot {c : Char} (h : isCallChar c = true) (hw : isWord c = false) : c = '.' := by
  simp only [isCallChar, isCallStart, Bool.or_eq_true, decide_eq_true_eq] at h
  rcases h with ((h | h) | h) | h
  · rw [isWord_of_ascii (by simp [h])] at hw
    cases hw
  · rw [isWord_of_ascii (by simp [h])] at hw
    cases hw
  · rw [isWord_of_ascii (by simp [h])] at hw
    cases hw
  · exact h

/-- A name of a call that ends where an address can begin is empty or ends with a dot. -/
theorem stem_of_startsWord {stem : Text} {before : Option Char} (hn : IsCallName (stem ++ "address".toList))
    (hb : startsWord (behind before stem) = true) :
    stem = [] ∨ IsCallName stem ∧ stem.getLast? = some '.' := by
  cases stem with
  | nil => exact .inl rfl
  | cons c stem =>
    have hstem : IsCallName (c :: stem) := ⟨hn.1, fun d hd => hn.2 d (List.mem_append_left _ hd)⟩
    refine .inr ⟨hstem, ?_⟩
    have hlast := List.getLast?_eq_some_getLast (List.cons_ne_nil c stem)
    rw [behind, hlast, Option.some_or] at hb
    rw [hlast, eq_dot (hstem.chars _ (List.getLast_mem _)) (by simpa [startsWord] using hb)]

theorem isCallName_address {stem : Text} (h : stem = [] ∨ IsCallName stem ∧ stem.getLast? = some '.') :
    IsCallName (stem ++ "address".toList) := by
  rcases h with rfl | ⟨h, -⟩
  · exact ⟨by decide, List.all_eq_true.1 (by decide)⟩
  · cases stem with
    | nil => exact absurd h id
    | cons c stem =>
      refine ⟨h.1, fun d hd => ?_⟩
      rcases List.mem_append.1 hd with hd | hd
      · exact h.2 d hd
      · exact List.all_eq_true.1 (show "address".toList.all isCallChar = true by decide) d hd

theorem typed_stem {indent stem : Text} (hi : Blanks indent)
    (h : stem = [] ∨ IsCallName stem ∧ stem.getLast? = some '.') (s : Text) :
    typed none (indent ++ stem ++ s) = indent ++ stem ++ typed (behind none (indent ++ stem)) s ∧
      startsWord (behind none (indent ++ stem)) = true := by
  rcases h with rfl | ⟨hn, hdot⟩
  · rw [List.append_nil]
    exact ⟨typed_skip (run_not_mem hi (by decide)) none s, startsWord_blanks hi rfl⟩
  · obtain ⟨stem, rfl⟩ := List.getLast?_eq_some_iff.1 hdot
    have hcomma : ',' ∉ indent ++ stem := by
      simp only [List.mem_append, not_or]
      exact ⟨run_not_mem hi (by decide),
        fun hm => run_not_mem hn.chars (c := ',') (by decide) (List.mem_append_left _ hm)⟩
    have hs := typed_split (e := '.') (by decide) (by decide) (by decide) none (indent ++ stem) s
    rw [typed_of_not_mem hcomma] at hs
    constructor
    · simpa using hs
    · simp [behind, startsWord]
      decide

theorem delayedCall_type_of_delayedCall {s : Text} (h : DelayedCall s) :
    DelayedCall (Pass.addresses.rewriteLine s) := by
  obtain ⟨indent, name, hi, hn, r, rfl, hr⟩ := delayedCall_iff.1 h
  have hcomma : ',' ∉ indent ++ name := by
    simp only [List.mem_append, not_or]
    exact ⟨run_not_mem hi (by decide), run_not_mem hn.chars (by decide)⟩
  have hs := typed_split (e := '(') (by decide) (by decide) (by decide) none (indent ++ name) r
  rw [typed_of_not_mem hcomma] at hs
  show DelayedCall (typed none _)
  refine delayedCall_iff.2 ⟨indent, name, hi, hn, typed (some '(') r, by simpa using hs, ?_⟩
  exact (infix_typed untyped_call _ _).2 hr

theorem delayedCall_type_of_addressCall {s : Text} (h : AddressCall s) :
    DelayedCall (Pass.addresses.rewriteLine s) := by
  obtain ⟨indent, stem, digits, hi, hst, hne, hd, r, rfl, hr⟩ := h
  obtain ⟨hs, hb⟩ := typed_stem hi hst ('0' :: 'x' :: digits ++ ',' :: r)
  rw [typed_argument hb hne hd] at hs
  show DelayedCall (typed none _)
  refine delayedCall_iff.2 ⟨indent, stem ++ "address".toList, hi, isCallName_address hst,
    '0' :: 'x' :: digits ++ ')' :: ',' :: typed (some ',') r, ?_, ?_⟩
  · simpa [addressHead_eq] using hs
  · exact (infix_written untyped_call hd _).2 ((infix_typed untyped_call _ _).2 hr)

/-- A name behind blanks that ends with the word written for an address begins behind them. -/
theorem stem_of_name {indent name a : Text} (hi : Blanks indent) (h : indent ++ name = a ++ "address".toList) :
    ∃ stem, a = indent ++ stem ∧ name = stem ++ "address".toList := by
  rcases List.append_eq_append_iff.1 h with h | ⟨t, rfl, ht⟩
  · exact h
  · cases t with
    | nil => exact ⟨[], by simp, by simpa using ht.symm⟩
    | cons c t =>
      obtain ⟨rfl, -⟩ := List.cons.inj (show 'a' :: "ddress".toList = c :: t ++ name from ht)
      exact absurd (hi 'a' (by simp)) (by decide)

/-- An address can be typed where a call has its name, and then opens a call. -/
theorem delayedCall_type {s : Text} :
    DelayedCall (Pass.addresses.rewriteLine s) ↔ DelayedCall s ∨ AddressCall s := by
  constructor
  · intro h
    obtain ⟨indent, name, hi, hn, r, h, hr⟩ := delayedCall_iff.1 h
    have hq : '(' ∉ indent ++ name := by
      simp only [List.mem_append, not_or]
      exact ⟨run_not_mem hi (by decide), run_not_mem hn.chars (by decide)⟩
    rw [List.append_assoc] at h
    rcases typed_opens h hq with ⟨r', rfl, rfl⟩ | ⟨a, digits, r', hb, hne, hd, rfl, ha, rfl⟩
    · exact .inl (delayedCall_iff.2 ⟨indent, name, hi, hn, r', by simp, (infix_typed untyped_call _ _).1 hr⟩)
    · obtain ⟨stem, rfl, rfl⟩ := stem_of_name hi ha
      rw [behind_append] at hb
      refine .inr ⟨indent, stem, digits, hi, stem_of_startsWord hn hb, hne, hd, r', by simp, ?_⟩
      exact (infix_typed untyped_call _ _).1 ((infix_written untyped_call hd _).1 hr)
  · intro h
    rcases h with h | h
    · exact delayedCall_type_of_delayedCall h
    · exact delayedCall_type_of_addressCall h

/-! ## Indentation -/

theorem renormalize_cases (s : Text) :
    (∃ indent c r, Blanks indent ∧ isSpace c = false ∧ s = indent ++ c :: r ∧
      Pass.depths.rewriteLine s = depth ++ c :: r) ∨ Pass.depths.rewriteLine s = s := by
  by_cases h : Shallow s
  · obtain ⟨indent, c, r, hi, hd, hc, rfl⟩ := h
    exact .inl ⟨indent, c, r, hi, hc, rfl, renormalize_shallow hi hd hc⟩
  · exact .inr (renormalize_eq_self h)

theorem blanks_depth : Blanks depth := List.all_eq_true.1 (by decide)

theorem not_shallow_renormalize (s : Text) : ¬ Shallow (Pass.depths.rewriteLine s) := by
  by_cases h : Shallow s
  · obtain ⟨indent, c, r, hi, hd, hc, rfl⟩ := h
    rw [renormalize_shallow hi hd hc]
    intro hs
    obtain ⟨indent', c', r', hi', hd', hc', h⟩ := hs
    obtain ⟨rfl, -⟩ := run_unique (p := isBlank) h blanks_depth (fails_head (isBlank_eq_false hc) _) hi'
      (fails_head (isBlank_eq_false hc') _)
    exact Nat.lt_irrefl _ hd'
  · rwa [renormalize_eq_self h]

/-- What is said of a line behind its indentation stays true under another indentation. -/
theorem indented_renormalize {Q : Text → Prop} (hQ : ∀ r, Q r → ∀ c ∈ r.head?, isBlank c = false) {s : Text} :
    (∃ indent r, Blanks indent ∧ Q r ∧ Pass.depths.rewriteLine s = indent ++ r) ↔
      ∃ indent r, Blanks indent ∧ Q r ∧ s = indent ++ r := by
  rcases renormalize_cases s with ⟨indent, c, r, hi, hc, rfl, he⟩ | he
  · have hb := fails_head (isBlank_eq_false hc) r
    rw [he]
    constructor
    · intro ⟨indent', r', hi', hq, h⟩
      obtain ⟨-, rfl⟩ := run_unique (p := isBlank) h blanks_depth hb hi' (hQ r' hq)
      exact ⟨indent, c :: r, hi, hq, rfl⟩
    · intro ⟨indent', r', hi', hq, h⟩
      obtain ⟨-, rfl⟩ := run_unique (p := isBlank) h hi hb hi' (hQ r' hq)
      exact ⟨depth, c :: r, blanks_depth, hq, rfl⟩
  · rw [he]

theorem delayedCall_renormalize {s : Text} : DelayedCall (Pass.depths.rewriteLine s) ↔ DelayedCall s := by
  have hiff : ∀ s, DelayedCall s ↔ ∃ indent r, Blanks indent ∧
      (∃ name args delay, IsCallName name ∧ r = name ++ '(' :: args ++ callMark ++ delay) ∧ s = indent ++ r := by
    intro s
    constructor
    · intro ⟨indent, name, args, delay, hi, hn, h⟩
      exact ⟨indent, _, hi, ⟨name, args, delay, hn, rfl⟩, by rw [h]; simp⟩
    · intro ⟨indent, r, hi, ⟨name, args, delay, hn, hr⟩, h⟩
      exact ⟨indent, name, args, delay, hi, hn, by rw [h, hr]; simp⟩
  rw [hiff, hiff]
  refine indented_renormalize ?_
  intro r hq
  obtain ⟨name, args, delay, hn, rfl⟩ := hq
  rw [List.append_assoc, List.append_assoc]
  exact hn.not_blank

theorem delay_renormalize {s : Text} : Delay (Pass.depths.rewriteLine s) ↔ Delay s := by
  have hiff : ∀ s, Delay s ↔ ∃ indent r, Blanks indent ∧
      (∃ seconds rest, seconds ≠ [] ∧ (∀ c ∈ seconds, isDigit c = true) ∧ r = delayMark ++ seconds ++ ' ' :: rest) ∧
        s = indent ++ r := by
    intro s
    constructor
    · intro ⟨indent, seconds, rest, hi, hne, hs, h⟩
      exact ⟨indent, _, hi, ⟨seconds, rest, hne, hs, rfl⟩, by rw [h]; simp⟩
    · intro ⟨indent, r, hi, ⟨seconds, rest, hne, hs, hr⟩, h⟩
      exact ⟨indent, seconds, rest, hi, hne, hs, by rw [h, hr]; simp⟩
  rw [hiff, hiff]
  refine indented_renormalize ?_
  intro r hq
  obtain ⟨seconds, rest, -, -, rfl⟩ := hq
  exact fails_head (c := 'T') (by decide) _

theorem marked_renormalize {s : Text} : Marked (Pass.depths.rewriteLine s) ↔ Marked s := by
  rcases renormalize_cases s with ⟨indent, c, r, hi, -, rfl, he⟩ | he
  · rw [he, marked_skip (by decide), marked_skip (run_not_mem hi (by decide))]
  · rw [he]

theorem openStatement_renormalize {s : Text} : OpenStatement (Pass.depths.rewriteLine s) ↔ OpenStatement s := by
  have hskip : ∀ indent s, Blanks indent → (OpenStatement (indent ++ s) ↔ OpenStatement s) := by
    intro indent s hi
    induction indent with
    | nil => rfl
    | cons b indent ih =>
      have hb : b ≠ ')' := by
        intro he
        subst he
        exact absurd (hi ')' List.mem_cons_self) (by decide)
      rw [List.cons_append, openStatement_cons, ih fun c hc => hi c (List.mem_cons_of_mem b hc)]
      simp [hb]
  rcases renormalize_cases s with ⟨indent, c, r, hi, -, rfl, he⟩ | he
  · rw [he, hskip depth _ blanks_depth, hskip indent _ hi]
  · rw [he]

theorem silent_before {before before' : Option Char} (h : startsWord before = startsWord before') (s : Text) :
    Silent Trace.addresses before s ↔ Silent Trace.addresses before' s := by
  cases s with
  | nil => rfl
  | cons c s => simp only [Silent, addresses_eq_none_iff, Argument, h]

theorem not_bareAddress_renormalize {s : Text} : ¬ BareAddress (Pass.depths.rewriteLine s) ↔ ¬ BareAddress s := by
  rcases renormalize_cases s with ⟨indent, c, r, hi, -, rfl, he⟩ | he
  · have hdepth : startsWord (behind none depth) = true := startsWord_blanks blanks_depth rfl
    have hindent : startsWord (behind none indent) = true := startsWord_blanks hi rfl
    rw [he, ← silent_addresses_iff, ← silent_addresses_iff, silent_skip (by decide),
      silent_skip (run_not_mem hi (by decide)), silent_before (hdepth.trans hindent.symm)]
  · rw [he]

/-! ## Counts -/

theorem count_materialize_le {c : Char} (h : c ∉ warpHead ++ [')', ';']) (s : Text) :
    (Pass.warps.rewriteLine s).count c ≤ s.count c := by
  by_cases hd : Delay s
  · obtain ⟨indent, seconds, rest, hi, hne, hs, rfl⟩ := hd
    simp only [List.mem_append, not_or] at h
    rw [materialize_delay hi hne hs]
    simp only [List.count_append, List.count_eq_zero.2 h.1, List.count_eq_zero.2 h.2]
    omega
  · exact Nat.le_of_eq (by rw [materialize_eq_self hd])

theorem count_terminate {c : Char} (h : c ≠ ';') (s : Text) : (Pass.ends.rewriteLine s).count c = s.count c := by
  rcases terminate_cases s with ⟨a, t, -, rfl, he⟩ | ⟨-, he⟩
  · rw [he]
    simp [List.count_append, List.count_cons, Ne.symm h]
  · rw [he]

theorem count_typed {c : Char} (h : c ∉ addressHead ++ [')']) (before : Option Char) (s : Text) :
    (typed before s).count c = s.count c := by
  refine typed_induction (P := fun before s => (typed before s).count c = s.count c) ?nil ?kept ?argument before s
  case nil => exact fun _ => rfl
  case kept =>
    intro before d s hno ih
    rw [typed_kept hno, List.count_cons, List.count_cons, ih]
  case argument =>
    intro before digits r hb hne hd ih
    simp only [List.mem_append, List.mem_singleton, not_or] at h
    have hx : ∀ d ∈ addressHead, ¬ (d == c) = true := by
      intro d hd he
      rw [beq_iff_eq] at he
      exact h.1 (he ▸ hd)
    rw [typed_argument hb hne hd]
    simp only [List.cons_append, List.count_append, List.count_cons, List.count_eq_zero.2 h.1, ih,
      hx '0' (by decide), hx 'x' (by decide), beq_iff_eq, Ne.symm h.2]
    simp

theorem count_renormalize_le {c : Char} (h : isBlank c = false) (s : Text) :
    (Pass.depths.rewriteLine s).count c ≤ s.count c := by
  rcases renormalize_cases s with ⟨indent, d, r, -, -, rfl, he⟩ | he
  · rw [he, List.count_append, List.count_append, List.count_eq_zero.2 (run_not_mem blanks_depth h)]
    omega
  · exact Nat.le_of_eq (by rw [he])

theorem count_finish_le {c : Char} (h : c = '*' ∨ c = '\n') (l : Text) : (finish l).count c ≤ l.count c := by
  have hall : c ∉ warpHead ++ [')', ';'] ∧ c ≠ ';' ∧ c ∉ addressHead ++ [')'] ∧ isBlank c = false := by
    rcases h with rfl | rfl
    · decide
    · decide
  obtain ⟨hw, he, ha, hb⟩ := hall
  calc (finish l).count c
      ≤ (Pass.addresses.rewriteLine (Pass.ends.rewriteLine (Pass.warps.rewriteLine l))).count c :=
        count_renormalize_le hb _
    _ = (Pass.ends.rewriteLine (Pass.warps.rewriteLine l)).count c := count_typed ha none _
    _ = (Pass.warps.rewriteLine l).count c := count_terminate he _
    _ ≤ l.count c := count_materialize_le hw l

end Replay.Trace
