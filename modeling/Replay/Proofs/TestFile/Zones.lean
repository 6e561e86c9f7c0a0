/-
  Replay.Proofs.TestFile.Zones — the zones of a test file.

  From left to right, a source falls into stretches: a character of the code, a comment up
  to the end of its line, a comment up to its closing mark, a string up to its closing
  quote (`Stretch`). A comment or a string that nothing closes goes on to the end. This
  says what the zones are by where they end. Reading says it character by character, by the
  mode in which one stands, and knows of a comment mark only behind it (`zones`). The two
  agree, so a source has its zones in one way.

  Proved here: `exists_zoned`, `zoned_iff`.
-/

import Replay.Proofs.Text.Marks
import Replay.TestFile.Braces

namespace Replay.TestFile

open Text

inductive Zone where
  | code
  | lineComment
  | blockComment
  | string
  deriving DecidableEq, Repr

def isQuote (c : Char) : Bool := c = '"' || c = '\x27'

def lineMark : Text := ['/', '/']
def blockMark : Text := ['/', '*']
def blockEnd : Text := ['*', '/']

/-- The inside of a string: a backslash takes the character behind it, and no other character is the closing quote. -/
inductive Quotable (mark : Char) : Text → Prop
  | nil : Quotable mark []
  | plain {c : Char} {s : Text} : c ≠ mark → c ≠ '\\' → Quotable mark s → Quotable mark (c :: s)
  | escaped {c : Char} {s : Text} : Quotable mark s → Quotable mark ('\\' :: c :: s)

/-- A zone, a stretch that lies in it, and what follows the stretch. -/
inductive Stretch : Zone → Text → Text → Prop
  | code {c : Char} {s : Text} : isQuote c = false → ¬ lineMark <+: c :: s → ¬ blockMark <+: c :: s →
      Stretch .code [c] s
  | lineComment {inside s : Text} : '\n' ∉ inside → (∀ c ∈ s.head?, c = '\n') →
      Stretch .lineComment (lineMark ++ inside) s
  | blockComment {inside s : Text} : ¬ blockEnd <:+: inside ++ ['*'] →
      Stretch .blockComment (blockMark ++ inside ++ blockEnd) s
  | openComment {inside : Text} : ¬ blockEnd <:+: inside → Stretch .blockComment (blockMark ++ inside) []
  | string {mark : Char} {inside s : Text} : isQuote mark = true → Quotable mark inside →
      Stretch .string (mark :: inside ++ [mark]) s
  | openString {mark : Char} {inside rest : Text} : isQuote mark = true → Quotable mark inside →
      rest = [] ∨ rest = ['\\'] → Stretch .string (mark :: inside ++ rest) []

/-- A source with the zone of each of its characters. -/
inductive Zoned : Text → List Zone → Prop
  | nil : Zoned [] []
  | stretch {z : Zone} {t s : Text} {zs : List Zone} : Stretch z t s → Zoned s zs →
      Zoned (t ++ s) (List.replicate t.length z ++ zs)

/-! ## Every source has zones -/

/-- Behind its opening mark, a block comment has a first closing mark or goes on to the end. -/
theorem block_cases (t : Text) :
    (∃ inside s, t = inside ++ blockEnd ++ s ∧ ¬ blockEnd <:+: inside ++ ['*']) ∨ ¬ blockEnd <:+: t := by
  induction t with
  | nil => exact .inr (by decide)
  | cons c t ih =>
    by_cases hp : blockEnd <+: c :: t
    · obtain ⟨s, hs⟩ := hp
      exact .inl ⟨[], s, hs.symm, by decide⟩
    · rcases ih with ⟨inside, s, rfl, hfirst⟩ | hnone
      · refine .inl ⟨c :: inside, s, rfl, ?_⟩
        rw [List.cons_append, List.infix_cons_iff, not_or]
        refine ⟨fun hc => hp (hc.trans ?_), hfirst⟩
        exact ⟨'/' :: s, by simp [blockEnd]⟩
      · exact .inr (by rw [List.infix_cons_iff, not_or]; exact ⟨hp, hnone⟩)

/-- Behind its opening quote, a string has a first closing quote or goes on to the end. -/
theorem string_cases (mark : Char) : ∀ t : Text,
    (∃ inside s, t = inside ++ [mark] ++ s ∧ Quotable mark inside) ∨
      ∃ inside rest, t = inside ++ rest ∧ Quotable mark inside ∧ (rest = [] ∨ rest = ['\\'])
  | [] => .inr ⟨[], [], rfl, .nil, .inl rfl⟩
  | [c] => by
    by_cases hc : c = mark
    · exact .inl ⟨[], [], by rw [hc]; rfl, .nil⟩
    · by_cases hb : c = '\\'
      · exact .inr ⟨[], [c], rfl, .nil, .inr (by rw [hb])⟩
      · exact .inr ⟨[c], [], rfl, .plain hc hb .nil, .inl rfl⟩
  | c :: d :: t => by
    by_cases hc : c = mark
    · exact .inl ⟨[], d :: t, by rw [hc]; rfl, .nil⟩
    · by_cases hb : c = '\\'
      · subst hb
        rcases string_cases mark t with ⟨inside, s, rfl, hi⟩ | ⟨inside, rest, rfl, hi, hr⟩
        · exact .inl ⟨'\\' :: d :: inside, s, rfl, .escaped hi⟩
        · exact .inr ⟨'\\' :: d :: inside, rest, rfl, .escaped hi, hr⟩
      · rcases string_cases mark (d :: t) with ⟨inside, s, ht, hi⟩ | ⟨inside, rest, ht, hi, hr⟩
        · exact .inl ⟨c :: inside, s, by rw [ht]; rfl, .plain hc hb hi⟩
        · exact .inr ⟨c :: inside, rest, by rw [ht]; rfl, .plain hc hb hi, hr⟩

theorem exists_stretch {s : Text} (hne : s ≠ []) : ∃ z t r, s = t ++ r ∧ t ≠ [] ∧ Stretch z t r := by
  by_cases hline : lineMark <+: s
  · obtain ⟨u, rfl⟩ := hline
    obtain ⟨inside, r, rfl, hi, hr⟩ := exists_run (· ≠ '\n') u
    refine ⟨_, _, r, (List.append_assoc ..).symm, by simp [lineMark], .lineComment ?_ ?_⟩
    · exact run_not_mem (p := (· ≠ '\n')) hi (by simp)
    · simpa using hr
  · by_cases hblock : blockMark <+: s
    · obtain ⟨u, rfl⟩ := hblock
      rcases block_cases u with ⟨inside, r, rfl, hfirst⟩ | hnone
      · exact ⟨_, blockMark ++ inside ++ blockEnd, r, by simp, by simp [blockMark], .blockComment hfirst⟩
      · exact ⟨_, _, [], (List.append_nil _).symm, by simp [blockMark], .openComment hnone⟩
    · cases s with
      | nil => exact absurd rfl hne
      | cons c u =>
        cases hq : isQuote c with
        | false => exact ⟨_, [c], u, rfl, by simp, .code hq hline hblock⟩
        | true =>
          rcases string_cases c u with ⟨inside, r, rfl, hi⟩ | ⟨inside, rest, rfl, hi, hr⟩
          · exact ⟨_, c :: inside ++ [c], r, rfl, by simp, .string hq hi⟩
          · exact ⟨_, c :: inside ++ rest, [], (List.append_nil _).symm, by simp, .openString hq hi hr⟩

theorem exists_zoned (s : Text) : ∃ zs, Zoned s zs := by
  induction hn : s.length using Nat.strongRecOn generalizing s with
  | _ n ih =>
    by_cases hne : s = []
    · exact ⟨[], hne ▸ .nil⟩
    · obtain ⟨z, t, r, rfl, ht, hz⟩ := exists_stretch hne
      have := List.length_pos_iff.2 ht
      rw [List.length_append] at hn
      obtain ⟨zs, hzs⟩ := ih r.length (by omega) r rfl
      exact ⟨_, .stretch hz hzs⟩

/-! ## Zones by modes -/

/-- A character of the code, and what follows it: a quote or a comment mark opens another zone. -/
def codeZone (c : Char) (rest : Text) : Zone :=
  if isQuote c then .string
  else if lineMark.isPrefixOf (c :: rest) then .lineComment
  else if blockMark.isPrefixOf (c :: rest) then .blockComment
  else .code

/-- The zone of a character that is read in a mode. -/
def zoneAt : Mode → Char → Text → Zone
  | .code, c, rest => codeZone c rest
  | .slash, c, rest => if c = '/' then .lineComment else if c = '*' then .blockComment else codeZone c rest
  | .lineComment, c, _ => if c = '\n' then .code else .lineComment
  | .blockComment, _, _ => .blockComment
  | .star, _, _ => .blockComment
  | .quote _, _, _ => .string
  | .escape _, _, _ => .string

def zones : Mode → Text → List Zone
  | _, [] => []
  | m, c :: r => zoneAt m c r :: zones (m.next c) r

theorem isQuote_iff {c : Char} : isQuote c = true ↔ c = '"' ∨ c = '\x27' := by simp [isQuote]

/-- Behind a slash that no mark begins with, the source is read as code. -/
theorem zones_slash {s : Text} (h : ∀ c ∈ s.head?, c ≠ '/' ∧ c ≠ '*') : zones .slash s = zones .code s := by
  cases s with
  | nil => rfl
  | cons c s =>
    obtain ⟨hs, hb⟩ := h c rfl
    simp only [zones, zoneAt, Mode.next, hs, hb, if_false]

theorem zones_code {c : Char} {s : Text} (hq : isQuote c = false) (hline : ¬ lineMark <+: c :: s)
    (hblock : ¬ blockMark <+: c :: s) : zones .code (c :: s) = .code :: zones .code s := by
  have hzone : codeZone c s = .code := by
    simp [codeZone, hq, List.isPrefixOf_iff_prefix, hline, hblock]
  rw [zones, zoneAt, hzone, Mode.next, Mode.plain]
  by_cases hc : c = '/'
  · subst hc
    rw [if_pos rfl, zones_slash]
    intro d hd
    obtain ⟨r, rfl⟩ := List.head?_eq_some_iff.1 hd
    constructor
    · rintro rfl
      exact hline ⟨r, rfl⟩
    · rintro rfl
      exact hblock ⟨r, rfl⟩
  · rw [isQuote] at hq
    rw [if_neg hc, if_neg (by rw [hq]; simp)]

theorem zones_lineComment {inside s : Text} (hi : '\n' ∉ inside) (hs : ∀ c ∈ s.head?, c = '\n') :
    zones .lineComment (inside ++ s) = List.replicate inside.length .lineComment ++ zones .code s := by
  induction inside with
  | nil =>
    cases s with
    | nil => rfl
    | cons c s =>
      obtain rfl := hs c rfl
      have hzone : codeZone '\n' s = .code := by simp [codeZone, isQuote, lineMark, blockMark]
      simp only [List.nil_append, zones, zoneAt, hzone]
      rfl
  | cons c inside ih =>
    simp only [List.mem_cons, not_or] at hi
    have hc : c ≠ '\n' := Ne.symm hi.1
    simp only [List.cons_append, zones, zoneAt, Mode.next, hc, if_false, ih hi.2]
    rfl

/-- What a block comment has read of its closing mark. -/
def halfRead : Mode → Text
  | .star => ['*']
  | _ => []

def InBlock (m : Mode) : Prop := m = .blockComment ∨ m = .star

theorem next_star {m : Mode} (h : InBlock m) : m.next '*' = .star := by
  rcases h with rfl | rfl <;> rfl

/-- A character that completes no closing mark stays in the comment, and so does what stands behind it. -/
theorem inBlock_next {m : Mode} (hm : InBlock m) {c : Char} {inside : Text}
    (hi : ¬ blockEnd <:+: halfRead m ++ c :: inside) :
    InBlock (m.next c) ∧ ¬ blockEnd <:+: halfRead (m.next c) ++ inside := by
  suffices InBlock (m.next c) ∧ halfRead (m.next c) ++ inside <:+ halfRead m ++ c :: inside from
    ⟨this.1, fun h => hi (h.trans this.2.isInfix)⟩
  by_cases hc : c = '*'
  · subst hc
    rw [next_star hm]
    exact ⟨.inr rfl, halfRead m, rfl⟩
  · have hslash : m = .star → c ≠ '/' := by
      rintro rfl rfl
      exact hi ⟨[], inside, rfl⟩
    have hblock : m.next c = .blockComment := by
      rcases hm with rfl | rfl
      · simp [Mode.next, hc]
      · simp [Mode.next, hc, hslash rfl]
    rw [hblock]
    exact ⟨.inl rfl, halfRead m ++ [c], by simp [halfRead]⟩

/-- Without a closing mark, the comment goes on. -/
theorem zones_block {m : Mode} (hm : InBlock m) {inside : Text} (hi : ¬ blockEnd <:+: halfRead m ++ inside) (s : Text) :
    zones m (inside ++ s) = List.replicate inside.length .blockComment ++ zones (inside.foldl Mode.next m) s ∧
      InBlock (inside.foldl Mode.next m) := by
  induction inside generalizing m with
  | nil => exact ⟨rfl, hm⟩
  | cons c inside ih =>
    have hzone : zoneAt m c (inside ++ s) = .blockComment := by rcases hm with rfl | rfl <;> rfl
    obtain ⟨hnext, hrest⟩ := inBlock_next hm hi
    obtain ⟨hzones, hlast⟩ := ih hnext hrest
    refine ⟨?_, hlast⟩
    rw [List.cons_append, zones, hzone, hzones]
    rfl

theorem zones_blockComment {inside : Text} (hi : ¬ blockEnd <:+: inside ++ ['*']) (s : Text) :
    zones .blockComment (inside ++ blockEnd ++ s) =
      List.replicate (inside ++ blockEnd).length .blockComment ++ zones .code s := by
  have hinside : ¬ blockEnd <:+: halfRead .blockComment ++ inside := fun h =>
    hi (h.trans (List.prefix_append inside ['*']).isInfix)
  have hstar := next_star (zones_block (.inl rfl) hinside s).2
  have hrest := (zones_block (.inl rfl) (show ¬ blockEnd <:+: halfRead .blockComment ++ (inside ++ ['*']) from hi)
    ('/' :: s)).1
  simp only [List.foldl_append, List.foldl_cons, List.foldl_nil, hstar] at hrest
  have hclose : zones .star ('/' :: s) = [.blockComment] ++ zones .code s := rfl
  have hparts : inside ++ blockEnd ++ s = inside ++ ['*'] ++ '/' :: s := by simp [blockEnd]
  have hlength : (inside ++ blockEnd).length = (inside ++ ['*']).length + 1 := by simp [blockEnd]
  rw [hparts, hrest, hclose, hlength, List.replicate_succ', List.append_assoc]

theorem zones_string {mark : Char} (hq : isQuote mark = true) {inside : Text} (hi : Quotable mark inside) (s : Text) :
    zones (.quote mark) (inside ++ s) = List.replicate inside.length .string ++ zones (.quote mark) s := by
  have hb : '\\' ≠ mark := by rcases isQuote_iff.1 hq with rfl | rfl <;> decide
  induction hi with
  | nil => rfl
  | plain hc hback _ ih =>
    simp only [List.cons_append, zones, zoneAt, Mode.next, hc, hback, if_false, ih]
    rfl
  | escaped _ ih =>
    simp only [List.cons_append, zones, zoneAt, Mode.next, hb, if_false, if_true, ih]
    rfl

theorem zones_quote {mark : Char} (hq : isQuote mark = true) (s : Text) :
    zones .code (mark :: s) = .string :: zones (.quote mark) s := by
  have hnext : Mode.plain mark = .quote mark := by rcases isQuote_iff.1 hq with rfl | rfl <;> rfl
  rw [zones, zoneAt, codeZone, if_pos hq, Mode.next, hnext]

theorem zones_closing {mark : Char} (s : Text) : zones (.quote mark) (mark :: s) = .string :: zones .code s := by
  rw [zones, Mode.next, if_pos rfl]
  rfl

theorem zones_lineMark (s : Text) : zones .code (lineMark ++ s) = .lineComment :: .lineComment :: zones .lineComment s :=
  rfl

theorem zones_blockMark (s : Text) :
    zones .code (blockMark ++ s) = .blockComment :: .blockComment :: zones .blockComment s :=
  rfl

/-- A stretch is read from the code back to the code, and lies in its zone. -/
theorem zones_stretch {z : Zone} {t s : Text} (h : Stretch z t s) :
    zones .code (t ++ s) = List.replicate t.length z ++ zones .code s := by
  cases h with
  | code hq hline hblock => exact zones_code hq hline hblock
  | lineComment hi hs =>
    rw [List.append_assoc, zones_lineMark, zones_lineComment hi hs]
    rfl
  | blockComment hi =>
    rw [List.append_assoc blockMark, List.append_assoc blockMark, zones_blockMark, zones_blockComment hi]
    rfl
  | @openComment inside hi =>
    have hrest := (zones_block (.inl rfl) (show ¬ blockEnd <:+: halfRead .blockComment ++ inside from hi) []).1
    rw [List.append_assoc, zones_blockMark, hrest]
    rfl
  | @string mark inside _ hq hi =>
    have hparts : mark :: inside ++ [mark] ++ s = mark :: (inside ++ mark :: s) := by simp
    have hlength : (mark :: inside ++ [mark]).length = inside.length + 1 + 1 := by simp
    rw [hparts, zones_quote hq, zones_string hq hi, zones_closing, hlength, List.replicate_succ, List.replicate_succ']
    simp
  | @openString mark inside rest hq hi hr =>
    have hrest : zones (.quote mark) rest = List.replicate rest.length .string := by
      rcases hr with rfl | rfl <;> rfl
    have hparts : mark :: inside ++ rest ++ [] = mark :: (inside ++ rest) := by simp
    rw [hparts, zones_quote hq, zones_string hq hi, hrest, List.replicate_append_replicate,
      ← List.length_append]
    simp [List.replicate_succ, zones]

/-- The zones of a source are those it is read in. -/
theorem zoned_iff {s : Text} {zs : List Zone} : Zoned s zs ↔ zones .code s = zs := by
  have hread : ∀ {s : Text} {zs : List Zone}, Zoned s zs → zones .code s = zs := by
    intro s zs h
    induction h with
    | nil => rfl
    | stretch hz _ ih => rw [zones_stretch hz, ih]
  refine ⟨hread, ?_⟩
  rintro rfl
  obtain ⟨zs, hzs⟩ := exists_zoned s
  rwa [hread hzs]

def isBrace (c : Char) : Bool := c = '{' || c = '}'

/-- A brace opens no zone, so the mode in which it is read tells whether it stands in the code. -/
theorem zoneAt_brace {c : Char} (h : isBrace c = true) (m : Mode) (rest : Text) :
    zoneAt m c rest = .code ↔ m.isCode = true := by
  have hc : c = '{' ∨ c = '}' := by simpa [isBrace] using h
  cases m <;> rcases hc with rfl | rfl <;> simp [zoneAt, codeZone, isQuote, lineMark, blockMark, Mode.isCode]

end Replay.TestFile
