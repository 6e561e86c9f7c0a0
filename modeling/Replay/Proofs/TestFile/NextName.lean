/-
  Replay.Proofs.TestFile.NextName — the next test name is free among the names found.

  Numbers of one stem are told apart by their names, so among one more number than names
  are declared there is a free one, and the search ends with it. A `Search` has no limit: it
  goes on as long as numbers are taken, so it is a matter of proof that it ends. It begins
  with the number of keywords, and every declared name has a keyword of its own, so the
  number that it ends with is at most twice as large. The places of the keyword do not
  overlap: their number is the same whether they are swept over or counted one by one.

  The search compares with the names that the sweep finds. Hence the file declares the next
  name only where the declaration is hidden from the sweep, behind a declared name that ends
  with the keyword.

  Proved here: `firstFree_spec`, `nextName_not_mem`, `search_iff`, `length_declared_le`,
  `length_finds_keyword`, `nextName_least`, `nextName_free_iff` and, for files in which no
  declared name ends with the keyword, `nextName_free`.
-/

import Replay.Proofs.TestFile.Declarations
import Replay.Proofs.Text.Digits

namespace Replay.TestFile

open Text

/-! ## Numbered names -/

theorem numbered_injective {stem : Text} {i j : Nat} (h : numbered stem i = numbered stem j) : i = j :=
  decimal_injective (List.append_cancel_left h)

theorem isNameChar_of_mem_decimal {k : Nat} {c : Char} (h : c ∈ decimal k) : isNameChar c = true := by
  simp [isNameChar, isAsciiDigit_of_mem_decimal h]

theorem isName_numbered {stem : Text} (h : isName stem = true) (k : Nat) : isName (numbered stem k) = true := by
  cases stem with
  | nil => cases h
  | cons c r =>
    simp only [isName, Bool.and_eq_true, List.all_eq_true] at h
    simp only [numbered, List.cons_append, isName, Bool.and_eq_true, List.all_eq_true]
    refine ⟨h.1, fun d hd => ?_⟩
    rcases List.mem_append.1 hd with hd | hd
    · exact h.2 d hd
    · exact isNameChar_of_mem_decimal hd

/-! ## The search -/

/-- The search passes taken names only, and stops early only at a free one. -/
theorem firstFree_spec (taken : List Text) (stem : Text) (fuel k : Nat) :
    k ≤ firstFree taken stem fuel k ∧ firstFree taken stem fuel k ≤ k + fuel ∧
      (∀ j, k ≤ j → j < firstFree taken stem fuel k → numbered stem j ∈ taken) ∧
      (firstFree taken stem fuel k < k + fuel → numbered stem (firstFree taken stem fuel k) ∉ taken) := by
  induction fuel generalizing k with
  | zero =>
    unfold firstFree
    refine ⟨Nat.le_refl k, Nat.le_refl k, ?_, ?_⟩
    · intro j h1 h2
      omega
    · intro h
      omega
  | succ fuel ih =>
    unfold firstFree
    split
    · next hk =>
      obtain ⟨hlow, hhigh, hpassed, hfree⟩ := ih (k + 1)
      refine ⟨by omega, by omega, ?_, ?_⟩
      · intro j h1 h2
        by_cases hj : j = k
        · rw [hj]
          exact List.contains_iff_mem.1 hk
        · exact hpassed j (by omega) h2
      · intro h
        exact hfree (by omega)
    · next hk =>
      refine ⟨Nat.le_refl k, by omega, ?_, ?_⟩
      · intro j h1 h2
        omega
      · intro _ hm
        exact hk (List.contains_iff_mem.2 hm)

/-- There are not enough names to take every number. -/
theorem firstFree_not_mem (taken : List Text) (stem : Text) (k : Nat) :
    numbered stem (firstFree taken stem taken.length k) ∉ taken := by
  obtain ⟨hlow, hhigh, hpassed, hfree⟩ := firstFree_spec taken stem taken.length k
  intro hm
  have hlast : firstFree taken stem taken.length k = k + taken.length := by
    apply Classical.byContradiction
    intro hne
    exact hfree (by omega) hm
  have hnodup : ((List.range' k (taken.length + 1)).map (numbered stem)).Nodup :=
    List.pairwise_map.2 ((List.nodup_range' 1).imp fun hne h => hne (numbered_injective h))
  have hsub : (List.range' k (taken.length + 1)).map (numbered stem) ⊆ taken := by
    intro t ht
    obtain ⟨j, hj, rfl⟩ := List.mem_map.1 ht
    rw [List.mem_range'_1] at hj
    by_cases hjl : j = k + taken.length
    · rw [hjl, ← hlast]
      exact hm
    · exact hpassed j hj.1 (by omega)
  have hle := hnodup.length_le_of_subset hsub
  rw [List.length_map, List.length_range'] at hle
  omega

theorem nextName_not_mem (stem source : Text) : nextName stem source ∉ declared source :=
  firstFree_not_mem (declared source) stem (keywordCount source)

theorem keywordCount_le_nextIndex (stem source : Text) : keywordCount source ≤ nextIndex stem source :=
  (firstFree_spec (declared source) stem (declared source).length (keywordCount source)).1

theorem nextIndex_le (stem source : Text) : nextIndex stem source ≤ keywordCount source + (declared source).length :=
  (firstFree_spec (declared source) stem (declared source).length (keywordCount source)).2.1

theorem mem_declared_of_lt_nextIndex {stem source : Text} {j : Nat} (hj : keywordCount source ≤ j)
    (hlt : j < nextIndex stem source) : numbered stem j ∈ declared source :=
  (firstFree_spec (declared source) stem (declared source).length (keywordCount source)).2.2.1 j hj hlt

/-! ## The search without a limit -/

/-- A search from the first number to the last that passes so many taken numbers and ends at a free one. -/
inductive Search (taken : List Text) (stem : Text) : Nat → Nat → Nat → Prop
  | free {k : Nat} : numbered stem k ∉ taken → Search taken stem k 0 k
  | pass {k n l : Nat} : numbered stem k ∈ taken → Search taken stem (k + 1) n l → Search taken stem k (n + 1) l

theorem search_iff {taken : List Text} {stem : Text} {k n l : Nat} : Search taken stem k n l ↔
    l = k + n ∧ numbered stem l ∉ taken ∧ ∀ j, k ≤ j → j < l → numbered stem j ∈ taken := by
  constructor
  · intro h
    induction h with
    | free hk =>
      refine ⟨rfl, hk, ?_⟩
      intro j h1 h2
      omega
    | @pass k n l hk _ ih =>
      obtain ⟨rfl, hfree, hpassed⟩ := ih
      refine ⟨by omega, hfree, ?_⟩
      intro j h1 h2
      by_cases hj : j = k
      · rw [hj]
        exact hk
      · exact hpassed j (by omega) h2
  · intro h
    obtain ⟨rfl, hfree, hpassed⟩ := h
    induction n generalizing k with
    | zero => exact .free hfree
    | succ n ih =>
      have hstep : k + (n + 1) = k + 1 + n := by omega
      rw [hstep] at hfree hpassed ⊢
      refine .pass (hpassed k (Nat.le_refl k) (by omega)) (ih hfree ?_)
      intro j h1 h2
      exact hpassed j (by omega) h2

theorem Search.unique {taken : List Text} {stem : Text} {k n m l i : Nat} (h : Search taken stem k n l)
    (h' : Search taken stem k m i) : n = m ∧ l = i := by
  obtain ⟨rfl, hfree, hpassed⟩ := search_iff.1 h
  obtain ⟨rfl, hfree', hpassed'⟩ := search_iff.1 h'
  rcases Nat.lt_trichotomy n m with hlt | rfl | hlt
  · exact absurd (hpassed' (k + n) (by omega) (by omega)) hfree
  · exact ⟨rfl, rfl⟩
  · exact absurd (hpassed (k + m) (by omega) (by omega)) hfree'

theorem search_nextIndex (stem source : Text) : Search (declared source) stem (keywordCount source)
    (nextIndex stem source - keywordCount source) (nextIndex stem source) := by
  have hlow := keywordCount_le_nextIndex stem source
  refine search_iff.2 ⟨by omega, nextName_not_mem stem source, ?_⟩
  intro j hj hlt
  exact mem_declared_of_lt_nextIndex hj hlt

/-! ## Names and keywords -/

theorem isPrefixOf_of_declaration {before : Option Char} {s : Text} {f : Find Text}
    (h : declaration before s = some f) : keyword.isPrefixOf s = true := by
  obtain ⟨gap, name, rest, -, -, rfl, -⟩ := exists_around h
  exact List.isPrefixOf_iff_prefix.2 (List.prefix_append _ _)

/-- Every declaration that a sweep finds begins with a keyword of its own. -/
theorem length_finds_le (before : Option Char) (skip : Nat) (s : Text) :
    ((sweepFrom declaration before skip s).filterMap Piece.value?).length ≤ keywordCount s := by
  induction s generalizing before skip with
  | nil => exact Nat.le_refl 0
  | cons c s ih =>
    rw [keywordCount]
    cases skip with
    | succ k => exact Nat.le_trans (ih _ k) (Nat.le_add_left _ _)
    | zero =>
      rw [sweepFrom]
      split
      · next f hf =>
        have hrest := ih (some c) f.more
        simp only [List.filterMap_cons, Piece.value?, List.length_cons, isPrefixOf_of_declaration hf, if_true]
        omega
      · exact Nat.le_trans (ih (some c) 0) (Nat.le_add_left _ _)

theorem length_declared_le (source : Text) : (declared source).length ≤ keywordCount source :=
  length_finds_le none 0 source

/-- Where the keyword stands, whatever is around it. -/
def keywordPlace : Rule Unit := fun _ s => (after? keyword s).map fun _ => ⟨keyword.length - 1, ()⟩

theorem keywordCount_keyword (s : Text) : keywordCount (keyword ++ s) = 1 + keywordCount s := by
  have hletters : keyword = ['f', 'u', 'n', 'c', 't', 'i', 'o', 'n'] := by decide
  simp [keywordCount, hletters, List.isPrefixOf]

theorem length_sweepFrom_keyword (before : Option Char) (skip : Nat) (s : Text) :
    ((sweepFrom keywordPlace before skip s).filterMap Piece.value?).length = keywordCount (s.drop skip) := by
  induction s generalizing before skip with
  | nil => simp [sweepFrom, keywordCount]
  | cons c s ih =>
    cases skip with
    | succ k => exact ih (some c) k
    | zero =>
      rw [sweepFrom, List.drop_zero]
      split
      · next f hf =>
        obtain ⟨r, hr, rfl⟩ := Option.map_eq_some_iff.1 hf
        have hs := after?_eq_some_iff.1 hr
        have hdrop : s.drop (keyword.length - 1) = r := by
          have hlong := congrArg (List.drop keyword.length) hs
          rw [List.drop_left] at hlong
          exact hlong
        rw [hs, keywordCount_keyword, ← hdrop, ← ih (some c) _]
        simp only [List.filterMap_cons, Piece.value?, List.length_cons]
        omega
      · next hf =>
        have hs : keyword.isPrefixOf (c :: s) = false := by
          rw [Bool.eq_false_iff]
          intro hp
          obtain ⟨r, hr⟩ := List.isPrefixOf_iff_prefix.1 hp
          rw [keywordPlace, after?_eq_some_iff.2 hr.symm] at hf
          cases hf
        have hrest := ih (some c) 0
        rw [List.drop_zero] at hrest
        simpa [keywordCount, hs, List.filterMap_cons, Piece.value?] using hrest

/-- A sweep finds every place of the keyword. -/
theorem length_finds_keyword (s : Text) : (finds keywordPlace s).length = keywordCount s :=
  length_sweepFrom_keyword none 0 s

/-- The next name has the least free number from the keyword count on, and the search for it ends. -/
theorem nextName_least (stem source : Text) : ∃ k n,
    nextName stem source = numbered stem k ∧
      (keywordCount source ≤ k ∧ numbered stem k ∉ declared source ∧
        ∀ j, keywordCount source ≤ j → numbered stem j ∉ declared source → k ≤ j) ∧
      (∀ m l, Search (declared source) stem (keywordCount source) m l ↔ m = n ∧ l = k) ∧
      n ≤ (declared source).length ∧ (declared source).length ≤ keywordCount source ∧ k ≤ 2 * keywordCount source := by
  have hlow := keywordCount_le_nextIndex stem source
  have hhigh := nextIndex_le stem source
  have hcount := length_declared_le source
  have hsearch := search_nextIndex stem source
  refine ⟨nextIndex stem source, nextIndex stem source - keywordCount source, rfl,
    ⟨hlow, nextName_not_mem stem source, ?_⟩, ?_, by omega, hcount, by omega⟩
  · intro j hj hfree
    apply Classical.byContradiction
    intro hlt
    exact hfree (mem_declared_of_lt_nextIndex hj (by omega))
  · intro m l
    constructor
    · intro h
      exact h.unique hsearch
    · intro h
      rw [h.1, h.2]
      exact hsearch

/-! ## What the file declares -/

/-- A declaration of the next name is a hidden one. -/
theorem hidden_of_declaresAt {stem source a gap : Text} (h : isName stem = true)
    (hd : DeclaresAt source a gap (nextName stem source)) : Hidden source a := by
  obtain ⟨n, hn⟩ := exists_row source a
  refine ⟨n, hn, ?_⟩
  apply Classical.byContradiction
  intro hodd
  exact nextName_not_mem stem source (mem_declared_iff.2 ⟨isName_numbered h _, a, gap, n, hd, hn, by omega⟩)

/-- The file does not declare the next name exactly if it hides no declaration of it. -/
theorem nextName_free_iff {stem source : Text} (h : isName stem = true) :
    ¬ Declares source (nextName stem source) ↔
      ¬ ∃ a gap, DeclaresAt source a gap (nextName stem source) ∧ Hidden source a := by
  refine not_congr ?_
  constructor
  · intro ⟨a, gap, hd⟩
    exact ⟨a, gap, hd, hidden_of_declaresAt h hd⟩
  · intro ⟨a, gap, hd, _⟩
    exact ⟨a, gap, hd⟩

theorem nextName_free_iff_of_test :
    isName "test_".toList = true ∧
      (¬ Declares "function test_1() {}".toList (nextName "test_".toList "function test_1() {}".toList) ↔
        ¬ ∃ a gap, DeclaresAt "function test_1() {}".toList a gap
          (nextName "test_".toList "function test_1() {}".toList) ∧ Hidden "function test_1() {}".toList a) :=
  ⟨by decide, nextName_free_iff (by decide)⟩

/-- The keyword in a comment is taken for a declaration, and the next keyword for its name. -/
theorem a_comment_hides_a_declaration :
    isName "test_".toList = true ∧
      Declares "// helper function\nfunction test_2() {}".toList
        (nextName "test_".toList "// helper function\nfunction test_2() {}".toList) := by
  have hname : nextName "test_".toList "// helper function\nfunction test_2() {}".toList = "test_2".toList := by decide
  rw [hname]
  refine ⟨by decide, "// helper function\n".toList, [' '], "() {}".toList, ⟨?_, ?_, ?_, ?_⟩, ?_⟩
  · decide
  · decide
  · exact List.all_eq_true.1 (by decide)
  · exact fails_head (by decide) _
  · decide

/-- Where no declared name ends with the keyword, the next name is not declared. -/
theorem nextName_free {stem source : Text} (h : isName stem = true)
    (hk : ∀ name, Declares source name → ¬ keyword <:+ name) : ¬ Declares source (nextName stem source) := by
  intro ⟨a, gap, hd⟩
  obtain ⟨n, hn, hodd⟩ := hidden_of_declaresAt h hd
  cases hn with
  | first => cases hodd
  | next hs _ =>
    obtain ⟨gap', stem', -, hd', -⟩ := hs
    exact hk _ ⟨_, gap', hd'⟩ (List.suffix_append stem' keyword)

end Replay.TestFile
