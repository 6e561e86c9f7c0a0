/-
  Replay.Proofs.Trace.Addresses — hexadecimal arguments become addresses.

  `typed` is what the rule makes of a text behind a given character. It is the only rule
  that looks at the character before it, so a text is typed part by part only where the
  parts meet at a character that belongs to no argument (`typed_split`). What it writes,
  `address(0x…),`, is no argument of its own: typing ends after one run (`silent_typed`).
  It writes an opening bracket before anything else that could be taken for text of the
  trace, so a stretch read in its output without such a bracket stood in its input
  (`typed_reads`).

  Proved here: `typed_induction`, `typed_skip`, `typed_split`, `typed_reads`,
  `typed_opens`, `silent_typed`, `infix_typed`, `type_eq_self`.
-/

import Replay.Proofs.Trace.Patterns

namespace Replay.Trace

open Text Pass

def typed (before : Option Char) (s : Text) : Text := rewrite Trace.addresses before s

/-! ## Single steps -/

theorem addressHead_eq : addressHead = "address(".toList ++ ['0', 'x'] := rfl

/-- Letters, digits and the low line of ASCII are word characters. -/
theorem isWord_of_ascii {c : Char} (h : (isLetter c || isAsciiDigit c || c = '_') = true) : isWord c = true := by
  have hc : c.toNat < 0x80 := by
    have h' := h
    simp only [isAsciiDigit, isLetter, Bool.or_eq_true, Bool.and_eq_true, decide_eq_true_eq, Char.le_def,
      UInt32.le_iff_toNat_le] at h'
    rcases h' with ((⟨-, h⟩ | ⟨-, h⟩) | ⟨-, h⟩) | rfl
    · exact Nat.lt_of_le_of_lt h (by decide)
    · exact Nat.lt_of_le_of_lt h (by decide)
    · exact Nat.lt_of_le_of_lt h (by decide)
    · decide
  rw [isWord, if_pos hc, h]

theorem isWord_of_isHex {c : Char} (h : isHex c = true) : isWord c = true := by
  refine isWord_of_ascii ?_
  simp only [isHex, isLetter, Bool.or_eq_true, Bool.and_eq_true, decide_eq_true_eq, Char.le_def] at h ⊢
  rcases h with (h | ⟨h, hf⟩) | ⟨h, hf⟩
  · exact .inl (.inr h)
  · exact .inl (.inl (.inl ⟨h, UInt32.le_trans hf (by decide)⟩))
  · exact .inl (.inl (.inr ⟨h, UInt32.le_trans hf (by decide)⟩))

theorem addresses_of_argument {before : Option Char} {digits r : Text} (hb : startsWord before = true)
    (hne : digits ≠ []) (hd : ∀ c ∈ digits, isHex c = true) :
    Trace.addresses before ('0' :: 'x' :: digits ++ ',' :: r) =
      some ⟨digits.length + 2, addressHead ++ digits ++ [')', ',']⟩ := by
  have hc := fails_head (p := isHex) (c := ',') (by decide) r
  simp only [List.cons_append, Trace.addresses, takeWhile_run hd hc, dropWhile_run hd hc]
  rw [if_pos]
  simp [hb, hne]

theorem addresses_eq_none_iff {before : Option Char} {s : Text} :
    Trace.addresses before s = none ↔ ¬ Argument before s := by
  constructor
  · intro h hs
    obtain ⟨digits, r, hb, hne, hd, rfl⟩ := hs
    rw [addresses_of_argument hb hne hd] at h
    cases h
  · intro h
    unfold Trace.addresses
    split
    · next rest =>
      refine if_neg fun hif => h ?_
      obtain ⟨digits, r, rfl, hd, hr⟩ := exists_run isHex rest
      simp only [takeWhile_run hd hr, dropWhile_run hd hr, Bool.and_eq_true, Bool.not_eq_true',
        List.isEmpty_eq_false_iff, decide_eq_true_eq] at hif
      obtain ⟨⟨hb, hne⟩, hcomma⟩ := hif
      cases r with
      | nil => cases hcomma
      | cons c r =>
        obtain rfl := Option.some.inj hcomma
        exact ⟨digits, r, hb, hne, hd, rfl⟩
    · rfl

theorem typed_kept {before : Option Char} {c : Char} {s : Text} (h : ¬ Argument before (c :: s)) :
    typed before (c :: s) = c :: typed (some c) s :=
  rewrite_kept (addresses_eq_none_iff.2 h)

theorem typed_argument {before : Option Char} {digits r : Text} (hb : startsWord before = true)
    (hne : digits ≠ []) (hd : ∀ c ∈ digits, isHex c = true) :
    typed before ('0' :: 'x' :: digits ++ ',' :: r) =
      addressHead ++ digits ++ ')' :: ',' :: typed (some ',') r := by
  have hf : Trace.addresses before ('0' :: ('x' :: digits ++ [',']) ++ r) =
      some ⟨('x' :: digits ++ [',']).length, addressHead ++ digits ++ [')', ',']⟩ := by
    simpa using addresses_of_argument (r := r) hb hne hd
  simpa [typed] using rewrite_found hf

theorem Argument.head {before : Option Char} {c : Char} {s : Text} (h : Argument before (c :: s)) :
    c = '0' := by
  obtain ⟨digits, r, -, -, -, h⟩ := h
  exact (List.cons.inj h).1

theorem Argument.startsWord {before : Option Char} {s : Text} (h : Argument before s) :
    startsWord before = true := by
  obtain ⟨digits, r, hb, -⟩ := h
  exact hb

/-- Typing walks over kept characters and whole arguments. -/
theorem typed_induction {P : Option Char → Text → Prop} (nil : ∀ before, P before [])
    (kept : ∀ before c s, ¬ Argument before (c :: s) → P (some c) s → P before (c :: s))
    (argument : ∀ before digits r, Text.startsWord before = true → digits ≠ [] →
      (∀ c ∈ digits, isHex c = true) → P (some ',') r → P before ('0' :: 'x' :: digits ++ ',' :: r))
    (before : Option Char) (s : Text) : P before s := by
  induction hn : s.length using Nat.strongRecOn generalizing before s with
  | _ n ih =>
    by_cases h : Argument before s
    · obtain ⟨digits, r, hb, hne, hd, rfl⟩ := h
      refine argument before digits r hb hne hd (ih r.length ?_ _ r rfl)
      simp only [← hn, List.cons_append, List.length_cons, List.length_append]
      omega
    · cases s with
      | nil => exact nil before
      | cons c s => exact kept before c s h (ih s.length (by simp [← hn]) _ s rfl)

/-! ## Parts of a text -/

/-- Up to the first zero nothing is typed. -/
theorem typed_skip {a : Text} (h : '0' ∉ a) (before : Option Char) (s : Text) :
    typed before (a ++ s) = a ++ typed (behind before a) s := by
  induction a generalizing before with
  | nil => rfl
  | cons c a ih =>
    simp only [List.mem_cons, not_or] at h
    have hc : ¬ Argument before (c :: (a ++ s)) := fun ha => h.1 ha.head.symm
    rw [List.cons_append, typed_kept hc, ih h.2, behind_cons]
    rfl

theorem typed_of_not_mem {s : Text} (h : ',' ∉ s) (before : Option Char) : typed before s = s := by
  induction s generalizing before with
  | nil => rfl
  | cons c s ih =>
    have hc : ¬ Argument before (c :: s) := by
      intro h
      obtain ⟨digits, r, -, -, -, he⟩ := h
      rw [he] at h
      simp at h
    rw [typed_kept hc, ih fun hm => h (List.mem_cons_of_mem c hm)]

/-- A character that belongs to no argument parts what is typed before it from what is
    typed behind it. -/
theorem typed_split {e : Char} (he : isHex e = false) (hx : e ≠ 'x') (hc : e ≠ ',') (before : Option Char)
    (a s : Text) : typed before (a ++ e :: s) = typed before a ++ e :: typed (some e) s := by
  have he0 : e ≠ '0' := by
    intro he
    subst he
    revert he
    decide
  have hout : ∀ digits : Text, (∀ c ∈ digits, isHex c = true) → e ∉ '0' :: 'x' :: digits ++ [','] := by
    intro digits hd hm
    simp only [List.cons_append, List.mem_cons, List.mem_append, List.not_mem_nil, or_false] at hm
    rcases hm with rfl | rfl | hm | rfl
    · exact he0 rfl
    · exact hx rfl
    · rw [hd e hm] at he
      cases he
    · exact hc rfl
  refine typed_induction (P := fun before a => typed before (a ++ e :: s) = typed before a ++ e :: typed (some e) s)
    ?nil ?kept ?argument before a
  case nil =>
    intro before
    exact typed_kept fun ha => he0 ha.head
  case kept =>
    intro before c a hno ih
    -- an argument that begins in front of `e` ends there
    have hno' : ¬ Argument before (c :: (a ++ e :: s)) := by
      intro h
      obtain ⟨digits, r, hb, hne, hd, h⟩ := h
      have h' : '0' :: 'x' :: digits ++ [','] ++ r = c :: a ++ e :: s := by simpa using h.symm
      obtain ⟨t, ht, -⟩ := append_eq_skip h' (hout digits hd)
      exact hno ⟨digits, t, hb, hne, hd, by rw [ht]; simp⟩
    rw [typed_kept hno, List.cons_append, typed_kept hno', ih]
    rfl
  case argument =>
    intro before digits r hb hne hd ih
    have h := typed_argument (r := r ++ e :: s) hb hne hd
    simp only [List.cons_append, List.append_assoc] at h ⊢
    rw [h, ih]
    have h' := typed_argument (r := r) hb hne hd
    simp only [List.cons_append] at h'
    rw [h']
    simp

/-! ## Reading the output -/

/-- What stands in the output before any opening bracket stood in the input. -/
theorem typed_reads {before : Option Char} {s q o : Text} {e : Char} (h : typed before s = q ++ e :: o)
    (hq : '(' ∉ q) (he : e ∉ "address(".toList) : ∃ r, s = q ++ e :: r ∧ o = typed (some e) r := by
  induction q generalizing before s with
  | nil =>
    cases s with
    | nil => cases h
    | cons c s =>
      by_cases ha : Argument before (c :: s)
      · obtain ⟨digits, r, hb, hne, hd, hs⟩ := ha
        rw [hs, typed_argument hb hne hd] at h
        obtain ⟨rfl, -⟩ := List.cons.inj (show 'a' :: _ = e :: o from h)
        exact absurd (by decide) he
      · rw [typed_kept ha] at h
        obtain ⟨rfl, rfl⟩ := List.cons.inj h
        exact ⟨s, rfl, rfl⟩
  | cons d q ih =>
    cases s with
    | nil => cases h
    | cons c s =>
      by_cases ha : Argument before (c :: s)
      · obtain ⟨digits, r, hb, hne, hd, hs⟩ := ha
        rw [hs, typed_argument hb hne hd] at h
        obtain ⟨t, ht, -⟩ := append_eq_skip (p := "address(".toList) h he
        rw [ht] at hq
        exact absurd (List.mem_append_left _ (by decide)) hq
      · rw [typed_kept ha] at h
        obtain ⟨rfl, h'⟩ := List.cons.inj h
        obtain ⟨r, rfl, ho⟩ := ih h' fun hm => hq (List.mem_cons_of_mem c hm)
        exact ⟨r, rfl, ho⟩

/-- The first opening bracket of the output stood in the input, or is that of the first
    address. -/
theorem typed_opens {before : Option Char} {s q o : Text} (h : typed before s = q ++ '(' :: o) (hq : '(' ∉ q) :
    (∃ r, s = q ++ '(' :: r ∧ o = typed (some '(') r) ∨
      ∃ a digits r, startsWord (behind before a) = true ∧ digits ≠ [] ∧ (∀ c ∈ digits, isHex c = true) ∧
        s = a ++ '0' :: 'x' :: digits ++ ',' :: r ∧ q = a ++ "address".toList ∧
        o = '0' :: 'x' :: digits ++ ')' :: ',' :: typed (some ',') r := by
  induction q generalizing before s with
  | nil =>
    cases s with
    | nil => cases h
    | cons c s =>
      by_cases ha : Argument before (c :: s)
      · obtain ⟨digits, r, hb, hne, hd, hs⟩ := ha
        rw [hs, typed_argument hb hne hd] at h
        exact absurd (List.cons.inj (show 'a' :: _ = '(' :: o from h)).1 (by decide)
      · rw [typed_kept ha] at h
        obtain ⟨rfl, rfl⟩ := List.cons.inj h
        exact .inl ⟨s, rfl, rfl⟩
  | cons d q ih =>
    cases s with
    | nil => cases h
    | cons c s =>
      by_cases ha : Argument before (c :: s)
      · obtain ⟨digits, r, hb, hne, hd, hs⟩ := ha
        rw [hs, typed_argument hb hne hd] at h
        obtain ⟨t, ht, ho⟩ := append_eq_skip (p := "address".toList) (e := '(') h (by decide)
        have : t = [] := by
          cases t with
          | nil => rfl
          | cons x t =>
            obtain ⟨rfl, -⟩ := List.cons.inj (show '(' :: _ = x :: t ++ '(' :: o from ho)
            simp [ht] at hq
        subst this
        obtain ⟨-, rfl⟩ := List.cons.inj (show '(' :: ('0' :: 'x' :: digits ++ ')' :: ',' :: typed (some ',') r) = '(' :: o from ho)
        exact .inr ⟨[], digits, r, hb, hne, hd, hs, by simpa using ht, rfl⟩
      · rw [typed_kept ha] at h
        obtain ⟨rfl, h'⟩ := List.cons.inj h
        rcases ih h' fun hm => hq (List.mem_cons_of_mem c hm) with ⟨r, rfl, ho⟩ | ⟨a, digits, r, hb, hne, hd, rfl, rfl, ho⟩
        · exact .inl ⟨r, rfl, ho⟩
        · exact .inr ⟨c :: a, digits, r, by simpa using hb, hne, hd, rfl, rfl, ho⟩

/-! ## Typing is done after one run -/

theorem silent_skip {before : Option Char} {a s : Text} (h : '0' ∉ a) :
    Silent Trace.addresses before (a ++ s) ↔ Silent Trace.addresses (behind before a) s := by
  induction a generalizing before with
  | nil => rfl
  | cons c a ih =>
    simp only [List.mem_cons, not_or] at h
    have hc : Trace.addresses before (c :: (a ++ s)) = none := addresses_eq_none_iff.2 fun ha => h.1 ha.head.symm
    rw [List.cons_append, Silent, ih h.2, behind_cons]
    simp [hc]

theorem silent_word {before : Option Char} {a s : Text} (hb : startsWord before = false)
    (ha : ∀ c ∈ a, isWord c = true) (hs : Silent Trace.addresses (behind before a) s) :
    Silent Trace.addresses before (a ++ s) := by
  induction a generalizing before with
  | nil => exact hs
  | cons c a ih =>
    refine ⟨addresses_eq_none_iff.2 fun h => ?_, ih ?_ (fun d hd => ha d (List.mem_cons_of_mem c hd)) (by simpa using hs)⟩
    · rw [h.startsWord] at hb
      cases hb
    · simp [startsWord, ha c List.mem_cons_self]

theorem silent_typed (before : Option Char) (s : Text) : Silent Trace.addresses before (typed before s) := by
  refine typed_induction (P := fun before s => Silent Trace.addresses before (typed before s)) ?nil ?kept ?argument
    before s
  case nil => exact fun _ => trivial
  case kept =>
    intro before c s hno ih
    rw [typed_kept hno]
    refine ⟨addresses_eq_none_iff.2 ?_, ih⟩
    -- what reads as an argument in the output is one in the input
    intro h
    obtain ⟨digits, r, hb, hne, hd, h⟩ := h
    obtain ⟨rfl, h⟩ := List.cons.inj h
    have hq : '(' ∉ 'x' :: digits := by
      intro hm
      rcases List.mem_cons.1 hm with h' | hm
      · cases h'
      · have := hd _ hm
        revert this
        decide
    obtain ⟨r, rfl, -⟩ := typed_reads (q := 'x' :: digits) (e := ',') h hq (by decide)
    exact hno ⟨digits, r, hb, hne, hd, rfl⟩
  case argument =>
    intro before digits r hb hne hd ih
    rw [typed_argument hb hne hd]
    have hhead : addressHead ++ digits ++ ')' :: ',' :: typed (some ',') r =
        "address(".toList ++ '0' :: ('x' :: digits ++ ([')', ','] ++ typed (some ',') r)) := by
      rw [addressHead_eq]
      simp
    rw [hhead]
    refine (silent_skip (by decide)).2 ⟨addresses_eq_none_iff.2 ?_, ?_⟩
    · intro h
      obtain ⟨digits', r', -, -, hd', h⟩ := h
      have h := (List.cons.inj (List.cons.inj h).2).2
      obtain ⟨-, h⟩ := run_unique (p := isHex) h hd (fails_head (by decide) _) hd' (fails_head (by decide) _)
      exact absurd (List.cons.inj h).1 (by decide)
    · refine silent_word (by decide) ?_ ?_
      · intro c hc
        rcases List.mem_cons.1 hc with rfl | hc
        · decide
        · exact isWord_of_isHex (hd c hc)
      · exact (silent_skip (by decide)).2 ih

theorem silent_addresses_iff {s : Text} : Silent Trace.addresses none s ↔ ¬ BareAddress s := by
  suffices ∀ before, Silent Trace.addresses before s ↔ ¬ ∃ a r, Argument (behind before a) r ∧ s = a ++ r by
    simpa [behind, BareAddress] using this none
  induction s with
  | nil =>
    intro before
    refine ⟨fun _ => ?_, fun _ => trivial⟩
    intro h
    obtain ⟨a, r, ⟨digits, r', -, -, -, rfl⟩, h⟩ := h
    simp at h
  | cons c s ih =>
    intro before
    rw [Silent, ih, addresses_eq_none_iff, ← not_or]
    refine not_congr ⟨?_, ?_⟩
    · intro h
      rcases h with h | ⟨a, r, h, rfl⟩
      · exact ⟨[], c :: s, h, rfl⟩
      · exact ⟨c :: a, r, by simpa using h, rfl⟩
    · intro h
      obtain ⟨a, r, h, hs⟩ := h
      cases a with
      | nil => exact .inl (by rw [hs]; exact h)
      | cons d a =>
        obtain ⟨rfl, rfl⟩ := List.cons.inj hs
        exact .inr ⟨a, r, by simpa using h, rfl⟩

theorem type_eq_self {s : Text} (h : ¬ BareAddress s) : Pass.addresses.rewriteLine s = s :=
  rewrite_of_silent (silent_addresses_iff.2 h)

theorem not_bareAddress_type (s : Text) : ¬ BareAddress (Pass.addresses.rewriteLine s) :=
  silent_addresses_iff.1 (silent_typed none s)

/-! ## Marks in the output -/

/-- A mark that typing can neither write nor touch. -/
structure Untyped (q : Char) (mark : Text) : Prop where
  zero : '0' ∉ q :: mark
  bracket : '(' ∉ q :: mark
  last : ∃ m e, q :: mark = m ++ [e] ∧ e ∉ "address(".toList
  outside : q ∉ addressHead ∧ isHex q = false ∧ q ≠ ','
  closing : ∀ s, ¬ q :: mark <+: ')' :: ',' :: s

theorem untyped_wait : Untyped '*' "wait* ".toList where
  zero := by decide
  bracket := by decide
  last := ⟨"*wait*".toList, ' ', by decide, by decide⟩
  outside := by decide
  closing := fun s h => absurd (List.cons_prefix_cons.1 h).1 (by decide)

theorem untyped_call : Untyped ')' (' ' :: delayMark) where
  zero := by decide
  bracket := by decide
  last := ⟨") Time delay:".toList, ' ', by decide, by decide⟩
  outside := by decide
  closing := fun s h => absurd (List.cons_prefix_cons.1 (List.cons_prefix_cons.1 h).2).1 (by decide)

theorem prefix_typed {q : Char} {mark : Text} (hm : Untyped q mark) (before : Option Char) (s : Text) :
    q :: mark <+: typed before s ↔ q :: mark <+: s := by
  constructor
  · intro h
    obtain ⟨o, h⟩ := h
    obtain ⟨m, e, hlast, he⟩ := hm.last
    rw [hlast, List.append_assoc] at h
    have hb := hm.bracket
    rw [hlast] at hb
    obtain ⟨r, rfl, -⟩ := typed_reads h.symm (fun h => hb (List.mem_append_left _ h)) he
    exact ⟨r, by rw [hlast]; simp⟩
  · intro h
    obtain ⟨r, rfl⟩ := h
    rw [typed_skip hm.zero]
    exact List.prefix_append _ _

/-- Neither an argument nor what is written for it holds a part of such a mark. -/
theorem infix_argument {q : Char} {mark digits : Text} (hm : Untyped q mark) (hd : ∀ c ∈ digits, isHex c = true)
    (r : Text) : q :: mark <:+: '0' :: 'x' :: digits ++ ',' :: r ↔ q :: mark <:+: r := by
  obtain ⟨hq, hhex, hcomma⟩ := hm.outside
  have hin : q ∉ '0' :: 'x' :: digits ++ [','] := by
    have h0 : q ∉ ['0', 'x'] := fun h => hq (List.mem_append_right "address(".toList h)
    simp only [List.mem_append, List.mem_cons, List.not_mem_nil, or_false, not_or] at h0 ⊢
    exact ⟨⟨h0.1, h0.2, run_not_mem hd hhex⟩, hcomma⟩
  simpa using infix_skip (s := r) hin

theorem infix_written {q : Char} {mark digits : Text} (hm : Untyped q mark) (hd : ∀ c ∈ digits, isHex c = true)
    (r : Text) : q :: mark <:+: '0' :: 'x' :: digits ++ ')' :: ',' :: r ↔ q :: mark <:+: r := by
  obtain ⟨hq, hhex, hcomma⟩ := hm.outside
  have hout : q ∉ '0' :: 'x' :: digits := by
    have h0 : q ∉ ['0', 'x'] := fun h => hq (List.mem_append_right "address(".toList h)
    simp only [List.mem_cons, List.not_mem_nil, or_false, not_or] at h0 ⊢
    exact ⟨h0.1, h0.2, run_not_mem hd hhex⟩
  have hp : ¬ q :: mark <+: ',' :: r := fun h => hcomma (List.cons_prefix_cons.1 h).1
  rw [infix_skip hout, List.infix_cons_iff, List.infix_cons_iff]
  simp [hm.closing, hp]

theorem infix_typed {q : Char} {mark : Text} (hm : Untyped q mark) (before : Option Char) (s : Text) :
    q :: mark <:+: typed before s ↔ q :: mark <:+: s := by
  refine typed_induction (P := fun before s => q :: mark <:+: typed before s ↔ q :: mark <:+: s) ?nil ?kept ?argument
    before s
  case nil => exact fun _ => Iff.rfl
  case kept =>
    intro before c s hno ih
    have hp := prefix_typed hm before (c :: s)
    rw [typed_kept hno] at hp ⊢
    rw [List.infix_cons_iff, List.infix_cons_iff, hp, ih]
  case argument =>
    intro before digits r hb hne hd ih
    have hhead : q ∉ "address(".toList := fun h => hm.outside.1 (List.mem_append_left ['0', 'x'] h)
    have hout : addressHead ++ digits ++ ')' :: ',' :: typed (some ',') r =
        "address(".toList ++ ('0' :: 'x' :: digits ++ ')' :: ',' :: typed (some ',') r) := by
      rw [addressHead_eq]
      simp
    rw [typed_argument hb hne hd, hout, infix_skip hhead, infix_written hm hd, ih, infix_argument hm hd]

end Replay.Trace
