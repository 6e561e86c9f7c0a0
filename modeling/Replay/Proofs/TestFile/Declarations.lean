/-
  Replay.Proofs.TestFile.Declarations — which declarations a test file's sweep finds.

  A declaration is the keyword at the start of a word, white space and a name that no
  further name character goes on with. The keyword is a name itself, and may be the end of
  one, behind a dollar sign. So the name of one declaration can be the keyword of the next
  (`Swallows`), and a sweep, which takes every match as a whole, finds only one of the two.
  Declarations of which each swallows the next stand in rows, and the sweep finds those
  with an even place in their row: the others are hidden.

  Proved here: `stem_of_inside`, `swallows_unique`, `asked_iff` and `mem_declared_iff`.
-/

import Replay.Proofs.Text.Marks
import Replay.Proofs.Text.Sweep
import Replay.TestFile.Names

namespace Replay.TestFile

open Text

/-- What stands around a declared name. -/
structure Around (before : Option Char) (gap rest : Text) : Prop where
  boundary : startsWord before = true
  some_gap : gap ≠ []
  spaces : ∀ c ∈ gap, isSpace c = true
  ended : ∀ c ∈ rest.head?, isNameChar c = false

def DeclaresAt (source a gap name : Text) : Prop :=
  ∃ rest, Around a.getLast? gap rest ∧ source = a ++ (keyword ++ (gap ++ (name ++ rest)))

def Declares (source name : Text) : Prop := ∃ a gap, DeclaresAt source a gap name

/-- The name declared behind `a` ends with a keyword, which begins behind `b`. -/
def Swallows (source a b : Text) : Prop :=
  ∃ gap stem, isName (stem ++ keyword) = true ∧ DeclaresAt source a gap (stem ++ keyword) ∧
    b = a ++ (keyword ++ (gap ++ stem))

/-- So many declarations, each of which swallows the next, lead up to the place behind `b`. -/
inductive Row (source : Text) : Nat → Text → Prop
  | first {b : Text} : (∀ a, ¬ Swallows source a b) → Row source 0 b
  | next {n : Nat} {a b : Text} : Swallows source a b → Row source n a → Row source (n + 1) b

/-- Taken for the name of a declaration, or for the end of it. -/
def Hidden (source b : Text) : Prop := ∃ n, Row source n b ∧ n % 2 = 1

/-! ## Characters -/

theorem isNameChar_range {c : Char} (h : isNameChar c = true) : 36 ≤ c.toNat ∧ c.toNat ≤ 122 := by
  simp only [isNameChar, isNameStart, isLetter, isAsciiDigit, Bool.or_eq_true, Bool.and_eq_true, decide_eq_true_eq,
    Char.le_def, UInt32.le_iff_toNat_le] at h
  rcases h with ((((⟨h1, h2⟩ | ⟨h1, h2⟩) | rfl) | rfl) | ⟨h1, h2⟩)
  · exact ⟨Nat.le_trans (by decide) h1, h2⟩
  · exact ⟨Nat.le_trans (by decide) h1, Nat.le_trans h2 (by decide)⟩
  · decide
  · decide
  · exact ⟨Nat.le_trans (by decide) h1, Nat.le_trans h2 (by decide)⟩

theorem not_isSpace_of_isNameChar {c : Char} (h : isNameChar c = true) : isSpace c = false := by
  have hc := isNameChar_range h
  exact isSpace_eq_false (by omega)

theorem not_isNameChar_of_isSpace {c : Char} (h : isSpace c = true) : isNameChar c = false := by
  cases hn : isNameChar c with
  | false => rfl
  | true =>
    rw [not_isSpace_of_isNameChar hn] at h
    cases h

theorem isName_chars {name : Text} (h : isName name = true) : name ≠ [] ∧ ∀ c ∈ name, isNameChar c = true := by
  cases name with
  | nil => cases h
  | cons c r =>
    simp only [isName, Bool.and_eq_true, List.all_eq_true] at h
    refine ⟨by simp, fun d hd => ?_⟩
    rcases List.mem_cons.1 hd with rfl | hd
    · simp [isNameChar, h.1]
    · exact h.2 d hd

theorem head_of_ne_nil {p : Char → Bool} {a s : Text} (hne : a ≠ []) (h : ∀ c ∈ a, p c = false) :
    ∀ c ∈ (a ++ s).head?, p c = false := by
  cases a with
  | nil => exact absurd rfl hne
  | cons d a => exact fails_head (h d List.mem_cons_self) _

theorem keyword_length : keyword.length = 8 := by decide

theorem isNameChar_keyword : ∀ c ∈ keyword, isNameChar c = true := List.all_eq_true.1 (by decide)

/-! ## The rule -/

theorem declaration_of_around {before : Option Char} {gap name rest : Text} (h : Around before gap rest)
    (hn : isName name = true) : declaration before (keyword ++ (gap ++ (name ++ rest))) =
      some ⟨keyword.length + gap.length + name.length - 1, name⟩ := by
  obtain ⟨hne, hchars⟩ := isName_chars hn
  have hgap : ∀ c ∈ (name ++ rest).head?, isSpace c = false :=
    head_of_ne_nil hne fun c hc => not_isSpace_of_isNameChar (hchars c hc)
  have hsome : (!gap.isEmpty && isName name) = true := by simp [h.some_gap, hn]
  simp only [declaration, ↓guard_bind, Option.bind_eq_bind, Option.bind_some, after?_eq_some_iff.2 rfl,
    takeWhile_run h.spaces hgap, dropWhile_run h.spaces hgap, takeWhile_run hchars h.ended, h.boundary, hsome, if_true]
  rfl

theorem exists_around {before : Option Char} {s : Text} {f : Find Text} (h : declaration before s = some f) :
    ∃ gap name rest, Around before gap rest ∧ isName name = true ∧ s = keyword ++ (gap ++ (name ++ rest)) ∧
      f = ⟨keyword.length + gap.length + name.length - 1, name⟩ := by
  simp only [declaration, ↓guard_bind, Option.bind_eq_bind, Option.ite_none_right_eq_some, Option.bind_eq_some_iff] at h
  obtain ⟨hb, r, hr, hsome, hf⟩ := h
  obtain rfl := after?_eq_some_iff.1 hr
  obtain ⟨gap, r, rfl, hg, hgr⟩ := exists_run isSpace r
  obtain ⟨name, rest, rfl, hn, hnr⟩ := exists_run isNameChar r
  simp only [takeWhile_run hg hgr, dropWhile_run hg hgr, takeWhile_run hn hnr, Bool.and_eq_true, Bool.not_eq_true',
    List.isEmpty_eq_false_iff] at hsome hf
  exact ⟨gap, name, rest, ⟨hb, hsome.1, hg, hnr⟩, hsome.2, rfl, (Option.some.inj hf).symm⟩

/-! ## Declarations inside declarations -/

/-- A keyword can begin in a match only where it ends the declared name. -/
theorem stem_of_inside {t gap name rest gap' r' : Text} {e : Char}
    (hg : ∀ c ∈ gap, isSpace c = true) (hn : isName name = true) (hrest : ∀ c ∈ rest.head?, isNameChar c = false)
    (hlast : t.getLast? = some e) (hb : isWord e = false) (hne' : gap' ≠ []) (hg' : ∀ c ∈ gap', isSpace c = true)
    (ht : t.length < keyword.length + gap.length + name.length)
    (h : keyword ++ (gap ++ (name ++ rest)) = t ++ (keyword ++ (gap' ++ r'))) :
    ∃ stem, t = keyword ++ (gap ++ stem) ∧ name = stem ++ keyword := by
  have hword : e ∉ keyword := by
    intro he
    have hall : keyword.all isWord = true := by decide
    rw [List.all_eq_true.1 hall e he] at hb
    cases hb
  -- the place lies behind the keyword
  obtain ⟨u, rfl, hu⟩ : ∃ u, t = keyword ++ u ∧ gap ++ (name ++ rest) = u ++ (keyword ++ (gap' ++ r')) := by
    rcases List.append_eq_append_iff.1 h with ⟨u, hu⟩ | ⟨u, hk, -⟩
    · exact ⟨u, hu⟩
    · have he := List.mem_of_getLast? hlast
      exact absurd (by rw [hk]; exact List.mem_append_left u he) hword
  -- and behind the white space
  obtain ⟨v, rfl, hv⟩ : ∃ v, u = gap ++ v ∧ name ++ rest = v ++ (keyword ++ (gap' ++ r')) := by
    rcases List.append_eq_append_iff.1 hu with ⟨v, hv⟩ | ⟨v, hk, hv⟩
    · exact ⟨v, hv⟩
    · cases v with
      | nil => exact ⟨[], by simpa using hk.symm, by simpa using hv.symm⟩
      | cons c v =>
        obtain ⟨rfl, -⟩ := List.cons.inj (show 'f' :: _ = c :: _ from hv)
        exact absurd (hg 'f' (by rw [hk]; simp)) (by decide)
  obtain ⟨hname, hchars⟩ := isName_chars hn
  rcases List.append_eq_append_iff.1 hv with ⟨w, rfl, hw⟩ | ⟨w, rfl, hw⟩
  · simp only [List.length_append] at ht
    omega
  · have hgap : ∀ c ∈ (gap' ++ r').head?, isNameChar c = false :=
      head_of_ne_nil hne' fun c hc => not_isNameChar_of_isSpace (hg' c hc)
    obtain ⟨hkey, -⟩ := run_unique hw.symm (fun c hc => hchars c (List.mem_append_right v hc)) hrest
      isNameChar_keyword hgap
    exact ⟨v, rfl, by rw [hkey]⟩

theorem asked_or_swallowed {source b gap name : Text} (h : DeclaresAt source b gap name) :
    Asked declaration source b ∨ ∃ a, Swallows source a b ∧ Asked declaration source a := by
  obtain ⟨rest, hb, hs⟩ := h
  have hplace : Asked declaration source b ∨ _ := asked_or_covered hs
  rcases hplace with ha | ⟨a, t, f, rfl, hne, ha, hf, ht⟩
  · exact .inl ha
  · right
    obtain ⟨gap', name', rest', hr, hn, heq, rfl⟩ := exists_around hf
    obtain ⟨e, he⟩ : ∃ e, t.getLast? = some e := ⟨_, List.getLast?_eq_some_getLast hne⟩
    have hword := hb.boundary
    rw [List.getLast?_append, he] at hword
    have hmore : t.length ≤ keyword.length + gap'.length + name'.length - 1 := ht
    obtain ⟨stem, rfl, rfl⟩ := stem_of_inside hr.spaces hn hr.ended he (by simpa [startsWord] using hword)
      hb.some_gap hb.spaces (by rw [keyword_length] at hmore ⊢; omega) heq.symm
    exact ⟨a, ⟨gap', stem, hn, ⟨rest', hr, by rw [hs, List.append_assoc, heq]⟩, rfl⟩, ha⟩

theorem not_asked_of_swallows {source a b : Text} (h : Swallows source a b) (ha : Asked declaration source a) :
    ¬ Asked declaration source b := by
  obtain ⟨gap, stem, hn, ⟨rest, hr, hs⟩, rfl⟩ := h
  have htext : keyword ++ (gap ++ (stem ++ keyword ++ rest)) = keyword ++ (gap ++ stem) ++ (keyword ++ rest) := by simp
  have hf := declaration_of_around hr hn
  rw [htext] at hs hf
  refine not_asked_of_covered hs ha hf ?_ ?_
  · have := keyword_length
    cases hk : keyword with
    | nil => rw [hk] at this; cases this
    | cons c k => simp
  · simp only [List.length_append, keyword_length]
    omega

theorem last_of_ne_nil {p : Char → Bool} {a s : Text} (hne : s ≠ []) (h : ∀ c ∈ s, p c = false) :
    ∀ c ∈ (a ++ s).getLast?, p c = false := by
  intro c hc
  rw [List.getLast?_append, List.getLast?_eq_some_getLast hne] at hc
  obtain rfl := Option.some.inj hc
  exact h _ (List.getLast_mem hne)

/-- White space and the name behind it are read backwards in one way. -/
theorem swallows_unique {source a a' b : Text} (h : Swallows source a b) (h' : Swallows source a' b) : a = a' := by
  obtain ⟨gap, stem, hn, ⟨rest, hr, -⟩, hb⟩ := h
  obtain ⟨gap', stem', hn', ⟨rest', hr', -⟩, hb'⟩ := h'
  have hstem := fun c hc => (isName_chars hn).2 c (List.mem_append_left keyword hc)
  have hstem' := fun c hc => (isName_chars hn').2 c (List.mem_append_left keyword hc)
  have hall : a ++ keyword ++ gap ++ stem = a' ++ keyword ++ gap' ++ stem' := by
    simpa using hb.symm.trans hb'
  obtain ⟨hgaps, -⟩ := last_run_unique hall hstem
    (last_of_ne_nil hr.some_gap fun c hc => not_isNameChar_of_isSpace (hr.spaces c hc)) hstem'
    (last_of_ne_nil hr'.some_gap fun c hc => not_isNameChar_of_isSpace (hr'.spaces c hc))
  have hkeyword : ∀ a : Text, ∀ c ∈ (a ++ keyword).getLast?, isSpace c = false := fun a =>
    last_of_ne_nil (by decide) fun c hc => not_isSpace_of_isNameChar (isNameChar_keyword c hc)
  obtain ⟨hkeys, -⟩ := last_run_unique hgaps hr.spaces (hkeyword a) hr'.spaces (hkeyword a')
  exact List.append_cancel_right hkeys

/-! ## Rows -/

theorem exists_row (source b : Text) : ∃ n, Row source n b := by
  induction hn : b.length using Nat.strongRecOn generalizing b with
  | _ n ih =>
    by_cases h : ∃ a, Swallows source a b
    · obtain ⟨a, ha⟩ := h
      have hlt : a.length < n := by
        obtain ⟨gap, stem, -, -, hb⟩ := ha
        rw [← hn, hb, List.length_append, List.length_append, keyword_length]
        omega
      obtain ⟨m, hm⟩ := ih a.length hlt a rfl
      exact ⟨m + 1, .next ha hm⟩
    · exact ⟨0, .first fun a ha => h ⟨a, ha⟩⟩

/-- The sweep looks at every other declaration of a row. -/
theorem asked_iff {source b gap name : Text} {n : Nat} (hb : DeclaresAt source b gap name) (h : Row source n b) :
    Asked declaration source b ↔ n % 2 = 0 := by
  induction h generalizing gap name with
  | first hno =>
    rcases asked_or_swallowed hb with ha | ⟨a, ha, -⟩
    · simp [ha]
    · exact absurd ha (hno a)
  | next hs _ ih =>
    obtain ⟨gap', stem, -, ha, -⟩ := id hs
    have hiff := ih ha
    constructor
    · intro hasked
      have hn := mt hiff.2 fun h => not_asked_of_swallows hs h hasked
      omega
    · intro hn
      rcases asked_or_swallowed hb with h | ⟨a', hs', h⟩
      · exact h
      · obtain rfl := swallows_unique hs hs'
        have := hiff.1 h
        omega

/-- The sweep finds the names declared at an even place of a row. -/
theorem mem_declared_iff {source name : Text} : name ∈ declared source ↔
    isName name = true ∧ ∃ a gap n, DeclaresAt source a gap name ∧ Row source n a ∧ n % 2 = 0 := by
  rw [declared, mem_finds_iff]
  constructor
  · intro ⟨a, r, hs, _, hasked, m, hf⟩
    obtain ⟨gap, name', rest, hr, hn, rfl, hfind⟩ := exists_around hf
    simp only [Find.mk.injEq] at hfind
    obtain ⟨-, rfl⟩ := hfind
    obtain ⟨n, hrow⟩ := exists_row source a
    have hd : DeclaresAt source a gap name := ⟨rest, hr, hs⟩
    exact ⟨hn, a, gap, n, hd, hrow, (asked_iff hd hrow).1 hasked⟩
  · intro ⟨hn, a, gap, n, hd, hrow, heven⟩
    have hasked := (asked_iff hd hrow).2 heven
    obtain ⟨rest, hr, hs⟩ := hd
    have hne : keyword ++ (gap ++ (name ++ rest)) ≠ [] := by simp [hr.some_gap]
    exact ⟨a, _, hs, hne, hasked, _, declaration_of_around hr hn⟩

end Replay.TestFile
