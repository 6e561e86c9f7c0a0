/-
  Replay.Proofs.TestFile.Seams — a test file on both sides of a character that is in no name.

  Neither a keyword nor a declaration reaches across a character that is neither of a name
  nor white space, such as a brace or a parenthesis. So both sides can be read on their own:
  the keywords of the whole are those of the two sides, and so are the declared names.

  Proved here: `keywordCount_append_cons`, `keywordCount_append_free`,
  `declared_append_cons`, `mem_declared_of_lead`.
-/

import Replay.Proofs.TestFile.NextName

namespace Replay.TestFile

open Text

/-- Keywords, gaps and names all end in front of it. -/
structure Seam (c : Char) : Prop where
  not_name : isNameChar c = false
  not_space : isSpace c = false
  not_word : isWord c = false

theorem seam_brace : Seam '}' := ⟨by decide, by decide, by decide⟩

theorem seam_parenthesis : Seam '(' := ⟨by decide, by decide, by decide⟩

/-! ## Keywords -/

theorem keywordCount_append_cons {c : Char} (h : c ∉ keyword) (a b : Text) :
    keywordCount (a ++ c :: b) = keywordCount a + keywordCount b := by
  induction a with
  | nil =>
    have hc : keyword.isPrefixOf (c :: b) = false := by
      rw [Bool.eq_false_iff]
      intro hp
      have hnil := (prefix_append_cons_iff (s := []) h).1 (List.isPrefixOf_iff_prefix.1 hp)
      exact absurd (List.prefix_nil.1 hnil) (by decide)
    simp [keywordCount, hc]
  | cons d a ih =>
    have hd : keyword.isPrefixOf (d :: a ++ c :: b) = keyword.isPrefixOf (d :: a) := by
      rw [Bool.eq_iff_iff, List.isPrefixOf_iff_prefix, List.isPrefixOf_iff_prefix, prefix_append_cons_iff h]
    rw [List.cons_append] at hd ⊢
    simp only [keywordCount, hd, ih]
    omega

theorem keywordCount_append_of_head {b : Text} (h : ∀ c ∈ b.head?, c ∉ keyword) (a : Text) :
    keywordCount (a ++ b) = keywordCount a + keywordCount b := by
  cases b with
  | nil => simp [keywordCount]
  | cons c b =>
    have hc := h c rfl
    have hb := keywordCount_append_cons hc [] b
    rw [List.nil_append, keywordCount, Nat.zero_add] at hb
    rw [keywordCount_append_cons hc, hb]

/-- Characters that are not of the keyword add none. -/
theorem keywordCount_append_free {t : Text} (h : ∀ c ∈ t, c ∉ keyword) (a : Text) :
    keywordCount (a ++ t) = keywordCount a := by
  have hnone : keywordCount t = 0 := by
    induction t with
    | nil => rfl
    | cons c t ih =>
      obtain ⟨hc, ht⟩ := List.forall_mem_cons.1 h
      rw [← List.nil_append (c :: t), keywordCount_append_cons hc, ih ht, keywordCount]
  rw [keywordCount_append_of_head (fun c hc => h c (List.mem_of_mem_head? hc)), hnone, Nat.add_zero]

/-! ## Declarations -/

theorem Around.of_append {before : Option Char} {gap rest b : Text} {c : Char}
    (h : Around before gap (rest ++ c :: b)) : Around before gap rest := by
  refine ⟨h.boundary, h.some_gap, h.spaces, ?_⟩
  intro d hd
  refine h.ended d ?_
  cases rest with
  | nil => cases hd
  | cons e rest => exact hd

theorem Around.append {before : Option Char} {gap rest : Text} {c : Char} (h : Around before gap rest)
    (hc : isNameChar c = false) (b : Text) : Around before gap (rest ++ c :: b) := by
  refine ⟨h.boundary, h.some_gap, h.spaces, ?_⟩
  cases rest with
  | nil => exact fails_head hc b
  | cons e rest => exact h.ended

theorem declaration_append_cons {c : Char} (hc : Seam c) (before : Option Char) (s b : Text) :
    declaration before (s ++ c :: b) = declaration before s := by
  ext f
  constructor
  · intro hf
    obtain ⟨gap, name, rest, hr, hn, hs, rfl⟩ := exists_around hf
    have hfree : c ∉ keyword ++ (gap ++ name) := by
      simp only [List.mem_append, not_or]
      refine ⟨?_, ?_, ?_⟩
      · exact run_not_mem isNameChar_keyword hc.not_name
      · exact run_not_mem hr.spaces hc.not_space
      · exact run_not_mem (isName_chars hn).2 hc.not_name
    have hparts : keyword ++ (gap ++ name) ++ rest = s ++ c :: b := by
      rw [hs, List.append_assoc, List.append_assoc]
    obtain ⟨t, rfl, rfl⟩ := append_eq_skip hparts hfree
    simpa using declaration_of_around hr.of_append hn
  · intro hf
    obtain ⟨gap, name, rest, hr, hn, rfl, rfl⟩ := exists_around hf
    simpa using declaration_of_around (hr.append hc.not_name b) hn

theorem more_lt_of_declaration {before : Option Char} {s : Text} {f : Find Text}
    (h : declaration before s = some f) : f.more < s.length := by
  obtain ⟨gap, name, rest, -, -, rfl, rfl⟩ := exists_around h
  simp only [List.length_append, keyword_length]
  omega

theorem declaration_stopsAt {c : Char} (hc : Seam c) : StopsAt declaration c where
  unread before s r := declaration_append_cons hc before s r
  covered before s f := more_lt_of_declaration
  fresh s := by
    have hstart : startsWord (some c) = startsWord none := by simp [startsWord, hc.not_word]
    unfold declaration
    rw [hstart]

theorem declared_append_cons {c : Char} (hc : Seam c) (a b : Text) :
    declared (a ++ c :: b) = declared a ++ declared b :=
  (declaration_stopsAt hc).finds_append a b

/-- A declaration is found where no keyword can stand in front of it. -/
theorem mem_declared_of_lead {lead gap name : Text} (hf : 'f' ∉ lead) (hlead : startsWord lead.getLast? = true)
    (hne : gap ≠ []) (hgap : ∀ c ∈ gap, isSpace c = true) (hn : isName name = true) :
    name ∈ declared (lead ++ (keyword ++ (gap ++ name))) := by
  have hd : DeclaresAt (lead ++ (keyword ++ (gap ++ name))) lead gap name :=
    ⟨[], ⟨hlead, hne, hgap, by simp⟩, by rw [List.append_nil]⟩
  refine mem_declared_iff.2 ⟨hn, lead, gap, 0, hd, .first ?_, rfl⟩
  intro b hs
  obtain ⟨gap', stem, -, -, rfl⟩ := hs
  exact hf (List.mem_append_right b (List.mem_append_left _ (by decide)))

end Replay.TestFile
