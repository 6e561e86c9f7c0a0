/-
  Replay.Proofs.TestFile.RunNames — the names that a run of literal splices gives.

  A literal splice opens the source behind a brace and puts its function in, which ends with
  a brace itself. So the file `Retains` what it declared and counted, and the keyword of the
  function is counted too. A name that can be declared is declared from then on, since only
  white space stands between the brace and the keyword. The next number of a stem starts
  from the keyword count. If it was pushed further by declared names, all of them are still
  declared, and so is the name that was given: the numbers of one stem only rise.

  Proved here: `keywordCount_fill` (for either strategy), `literal_retains`,
  `mem_declared_fill`, `nextIndex_lt`, `retains_later`, `spliceAll_names`.
-/

import Replay.Proofs.TestFile.Runs
import Replay.Proofs.TestFile.Seams

namespace Replay.TestFile

open Text

/-- Nothing that is declared or counted gets lost. -/
structure Retains (source later : Text) : Prop where
  names : declared source ⊆ declared later
  keywords : keywordCount source ≤ keywordCount later

theorem Retains.refl (source : Text) : Retains source source := ⟨List.Subset.refl _, Nat.le_refl _⟩

theorem Retains.trans {a b c : Text} (h : Retains a b) (h' : Retains b c) : Retains a c :=
  ⟨List.Subset.trans h.names h'.names, Nat.le_trans h.keywords h'.keywords⟩

/-! ## One splice -/

theorem keywordCount_inside (name body : Text) :
    keywordCount (inside name body) = 1 + keywordCount name + keywordCount body := by
  have hlead : "\n\n    function ".toList = "\n\n    function".toList ++ [' '] := by decide
  have hmiddle : "() public \x7b\n".toList = '(' :: (") public \x7b".toList ++ ['\n']) := by decide
  have hend : "    ".toList = ' ' :: "   ".toList := by decide
  have h1 : keywordCount "\n\n    function".toList = 1 := by decide
  have h2 : keywordCount ") public \x7b".toList = 0 := by decide
  have h3 : keywordCount "   ".toList = 0 := by decide
  unfold inside
  rewrite [hlead, hmiddle, hend]
  generalize "\n\n    function".toList = lead at h1
  generalize ") public \x7b".toList = middle at h2
  generalize "   ".toList = last at h3
  simp only [List.append_assoc, List.cons_append, List.nil_append]
  rw [keywordCount_append_cons (by decide), keywordCount_append_cons (by decide),
    keywordCount_append_cons (by decide), keywordCount_append_cons (by decide), h1, h2, h3]
  omega

/-- A splice loses no keyword and makes none at its seams. -/
theorem keywordCount_fill {c : Cut} (h : c.Clean) (name body : Text) :
    keywordCount (c.fill (function name body)) =
      keywordCount (c.head ++ c.gap ++ c.tail) + keywordCount (inside name body) := by
  obtain ⟨b, hb⟩ := h.closes
  have htail : c.tail = '}' :: b := hb.symm
  have hgap : ∀ d ∈ c.gap, d ∉ keyword := fun d hd => run_not_mem (p := fun e => !isSpace e)
    (List.all_eq_true.1 (by decide)) (by rw [h.spaces d hd]; rfl)
  have hlead : ∀ d ∈ (inside name body).head?, d ∉ keyword := by
    intro d hd
    obtain rfl := Option.some.inj (show some '\n' = some d from hd)
    decide
  have hparts : c.fill (function name body) = c.head ++ inside name body ++ '}' :: (['\n'] ++ '}' :: b) := by
    rw [fill_function, added_eq, htail]
    simp
  have hfeed : keywordCount (['\n'] ++ '}' :: b) = keywordCount b := by
    rw [keywordCount_append_cons (by decide)]
    exact Nat.zero_add _
  rw [hparts, htail, keywordCount_append_cons (by decide), keywordCount_append_of_head hlead, hfeed,
    keywordCount_append_cons (by decide), keywordCount_append_free hgap]
  omega

theorem mem_declared_inside {name : Text} (h : isName name = true) (body : Text) :
    name ∈ declared (inside name body) := by
  have hlead : "\n\n    function ".toList = "\n\n    ".toList ++ (keyword ++ [' ']) := by decide
  have hmiddle : "() public \x7b\n".toList = '(' :: ") public \x7b\n".toList := by decide
  have hfound : name ∈ declared ("\n\n    ".toList ++ (keyword ++ ([' '] ++ name))) :=
    mem_declared_of_lead (by decide) (by decide) (by decide) (List.all_eq_true.1 (by decide)) h
  unfold inside
  rewrite [hlead, hmiddle]
  generalize "\n\n    ".toList = lead at hfound
  have hparts : lead ++ (keyword ++ [' ']) ++ (name ++ ('(' :: ") public \x7b\n".toList ++ (body ++ "    ".toList))) =
      lead ++ (keyword ++ ([' '] ++ name)) ++ '(' :: (") public \x7b\n".toList ++ (body ++ "    ".toList)) := by
    simp only [List.append_assoc, List.cons_append]
  rewrite [hparts, declared_append_cons seam_parenthesis]
  exact List.mem_append_left _ hfound

/-- A literal splice parts the source behind a brace. -/
theorem exists_brace_of_literal {source : Text} {c : Cut} (h : Cut.find .literal source = some c) :
    ∃ a b, source = a ++ '}' :: b ∧
      ∀ name body, c.fill (function name body) = a ++ '}' :: (inside name body ++ '}' :: b) := by
  obtain ⟨a, r, rfl, -, rfl⟩ := exists_last_of_literal h
  refine ⟨a, '\n' :: '}' :: r, rfl, ?_⟩
  intro name body
  rw [fill_function, added_eq]
  simp

section Literal

variable {source : Text} {c : Cut} (h : Cut.find .literal source = some c) (name body : Text)

include h

theorem keywordCount_lt_fill : keywordCount source < keywordCount (c.fill (function name body)) := by
  rw [keywordCount_fill (clean_of_literal h), Cut.find_append h, keywordCount_inside]
  omega

theorem mem_declared_fill_iff (other : Text) : other ∈ declared (c.fill (function name body)) ↔
    other ∈ declared source ∨ other ∈ declared (inside name body) := by
  obtain ⟨a, b, rfl, hfill⟩ := exists_brace_of_literal h
  rw [hfill, declared_append_cons seam_brace, declared_append_cons seam_brace, declared_append_cons seam_brace]
  simp only [List.mem_append]
  constructor
  · rintro (h | h | h)
    · exact .inl (.inl h)
    · exact .inr h
    · exact .inl (.inr h)
  · rintro ((h | h) | h)
    · exact .inl h
    · exact .inr (.inr h)
    · exact .inr (.inl h)

theorem mem_declared_fill (hn : isName name = true) : name ∈ declared (c.fill (function name body)) :=
  (mem_declared_fill_iff h name body name).2 (.inr (mem_declared_inside hn body))

theorem literal_retains : Retains source (c.fill (function name body)) where
  names other ho := (mem_declared_fill_iff h name body other).2 (.inl ho)
  keywords := Nat.le_of_lt (keywordCount_lt_fill h name body)

end Literal

/-! ## The numbers of one stem -/

theorem not_isNameStart_of_mem_decimal {k : Nat} {c : Char} (h : c ∈ decimal k) : isNameStart c = false := by
  have hd := isAsciiDigit_of_mem_decimal h
  simp only [isAsciiDigit, Bool.and_eq_true, decide_eq_true_eq] at hd
  cases hs : isNameStart c with
  | false => rfl
  | true =>
    simp only [isNameStart, isLetter, Bool.or_eq_true, Bool.and_eq_true, decide_eq_true_eq, Char.le_def] at hs
    rcases hs with ((⟨hs, -⟩ | ⟨hs, -⟩) | rfl) | rfl
    · exact absurd (UInt32.le_trans hs hd.2) (by decide)
    · exact absurd (UInt32.le_trans hs hd.2) (by decide)
    · exact absurd hd.2 (by decide)
    · exact absurd hd.1 (by decide)

/-- A number alone is no name, so the stem begins it. -/
theorem isName_of_numbered {stem : Text} {k : Nat} (h : isName (numbered stem k) = true) : isName stem = true := by
  cases stem with
  | nil =>
    cases hk : decimal k with
    | nil => simp [numbered, hk, isName] at h
    | cons c r =>
      have hc : isNameStart c = false := not_isNameStart_of_mem_decimal (k := k) (by simp [hk])
      simp [numbered, hk, isName, hc] at h
  | cons c r =>
    simp only [numbered, List.cons_append, isName, Bool.and_eq_true, List.all_eq_true] at h ⊢
    exact ⟨h.1, fun d hd => h.2 d (List.mem_append_left _ hd)⟩

/-- The number given later is larger, if the name given first is declared by then. -/
theorem nextIndex_lt {stem source later : Text} (hr : Retains source later)
    (hk : keywordCount source < keywordCount later)
    (hn : isName (nextName stem source) = true → nextName stem source ∈ declared later) :
    nextIndex stem source < nextIndex stem later := by
  apply Classical.byContradiction
  intro hle
  have hlow := keywordCount_le_nextIndex stem later
  -- the first number was pushed past the keyword count, so names of this stem can be declared
  have hpushed : numbered stem (keywordCount source) ∈ declared source :=
    mem_declared_of_lt_nextIndex (Nat.le_refl _) (by omega)
  have hstem : isName stem = true := isName_of_numbered (mem_declared_iff.1 hpushed).1
  refine nextName_not_mem stem later ?_
  rcases Nat.lt_or_eq_of_le (Nat.le_of_not_lt hle) with hlt | heq
  · exact hr.names (mem_declared_of_lt_nextIndex (by omega) hlt)
  · have hname : nextName stem later = nextName stem source := congrArg (numbered stem) heq
    rw [hname]
    exact hn (isName_numbered hstem _)

/-! ## Runs -/

section Splice

variable {source : Text} {q : Request} {r : Spliced} (h : splice q.stem .literal source q.block = some r)

include h

theorem keywordCount_lt_splice : keywordCount source < keywordCount r.source := by
  obtain ⟨c, hc, rfl⟩ := exists_cut_of_splice h
  exact keywordCount_lt_fill hc _ _

theorem retains_splice : Retains source r.source := by
  obtain ⟨c, hc, rfl⟩ := exists_cut_of_splice h
  exact literal_retains hc _ _

theorem mem_declared_splice (hn : isName r.name = true) : r.name ∈ declared r.source := by
  obtain ⟨c, hc, rfl⟩ := exists_cut_of_splice h
  exact mem_declared_fill hc _ _ hn

end Splice

theorem retains_of_mem {source : Text} {qs : List Request} {steps : List Step}
    (h : spliceAll .literal source qs = some steps) {s : Step} (hs : s ∈ steps) : Retains source s.source := by
  induction qs generalizing source steps with
  | nil =>
    cases h
    cases hs
  | cons q qs ih =>
    obtain ⟨r, rest, hr, hrest, rfl⟩ := exists_of_spliceAll_cons h
    rcases List.mem_cons.1 hs with rfl | hs
    · exact .refl source
    · exact (retains_splice hr).trans (ih hrest hs)

/-- What a step leaves is kept up to every later one. -/
theorem retains_later {source : Text} {qs : List Request} {steps : List Step}
    (h : spliceAll .literal source qs = some steps) :
    steps.Pairwise fun s t => Retains s.result.source t.source := by
  induction qs generalizing source steps with
  | nil =>
    cases h
    exact .nil
  | cons q qs ih =>
    obtain ⟨r, rest, -, hrest, rfl⟩ := exists_of_spliceAll_cons h
    exact .cons (fun t ht => retains_of_mem hrest ht) (ih hrest)

/-- Along a run of literal splices the numbers of one stem rise, and no name is given twice. -/
theorem spliceAll_names {source : Text} {c : Cut} (h : Cut.find .literal source = some c) (qs : List Request) :
    ∃ steps, spliceAll .literal source qs = some steps ∧ steps.map Step.request = qs ∧
      steps.Pairwise (fun s t => s.request.stem = t.request.stem →
        ∃ k l, s.result.name = numbered s.request.stem k ∧ t.result.name = numbered t.request.stem l ∧ k < l) ∧
      ((∀ q ∈ qs, isName q.stem = true) →
        (steps.map fun s => s.result.name).Nodup ∧ ∀ s ∈ steps, s.result.name ∉ declared s.source) := by
  obtain ⟨steps, hrun, hmap, -⟩ := exists_steps h fun q (_ : q ∈ qs) => keeps_literal q
  have hstep := fun s (hs : s ∈ steps) => splice_of_mem hrun hs
  have hname := fun s hs => name_of_splice (hstep s hs)
  have hfresh : ∀ s ∈ steps, s.result.name ∉ declared s.source := by
    intro s hs
    rw [hname s hs]
    exact nextName_not_mem s.request.stem s.source
  refine ⟨steps, hrun, hmap, ?_, ?_⟩
  · refine (retains_later hrun).imp_of_mem ?_
    intro s t hs ht hlater hstem
    refine ⟨nextIndex s.request.stem s.source, nextIndex t.request.stem t.source, hname s hs, hname t ht, ?_⟩
    rw [← hstem]
    refine nextIndex_lt ((retains_splice (hstep s hs)).trans hlater) ?_ ?_
    · exact Nat.lt_of_lt_of_le (keywordCount_lt_splice (hstep s hs)) hlater.keywords
    · intro hn
      rw [← hname s hs] at hn ⊢
      exact hlater.names (mem_declared_splice (hstep s hs) hn)
  · intro hstems
    refine ⟨List.pairwise_map.2 ((retains_later hrun).imp_of_mem ?_), hfresh⟩
    intro s t hs ht hlater heq
    have hn : isName s.result.name = true := by
      rw [hname s hs]
      exact isName_numbered (hstems _ (hmap ▸ List.mem_map_of_mem hs)) _
    refine hfresh t ht ?_
    rw [← heq]
    exact hlater.names (mem_declared_splice (hstep s hs) hn)

/-- The first of two tests is counted to a name that is declared already. -/
theorem spliceAll_names_of_test :
    Cut.find .literal "function test_1() \x7b\n\x7d\n\x7d".toList =
        some ⟨"function test_1() \x7b\n\x7d".toList, ['\n'], ['}']⟩ ∧
      (∀ q ∈ List.replicate 2 (⟨"test_".toList, ⟨[]⟩⟩ : Request), isName q.stem = true) ∧
      ∃ steps, spliceAll .literal "function test_1() \x7b\n\x7d\n\x7d".toList
          (List.replicate 2 ⟨"test_".toList, ⟨[]⟩⟩) = some steps ∧
        steps.map Step.request = List.replicate 2 ⟨"test_".toList, ⟨[]⟩⟩ ∧
        steps.Pairwise (fun s t => s.request.stem = t.request.stem →
          ∃ k l, s.result.name = numbered s.request.stem k ∧ t.result.name = numbered t.request.stem l ∧ k < l) ∧
        (steps.map fun s => s.result.name).Nodup ∧ ∀ s ∈ steps, s.result.name ∉ declared s.source := by
  have hcut : Cut.find .literal "function test_1() \x7b\n\x7d\n\x7d".toList =
      some ⟨"function test_1() \x7b\n\x7d".toList, ['\n'], ['}']⟩ := by decide
  have hstems : ∀ q ∈ List.replicate 2 (⟨"test_".toList, ⟨[]⟩⟩ : Request), isName q.stem = true := by
    intro q hq
    rw [List.eq_of_mem_replicate hq]
    decide
  obtain ⟨steps, hrun, hmap, hrise, hnames⟩ := spliceAll_names hcut (List.replicate 2 ⟨"test_".toList, ⟨[]⟩⟩)
  exact ⟨hcut, hstems, steps, hrun, hmap, hrise, hnames hstems⟩

end Replay.TestFile
