/-
  Replay.Proofs.TestFile.StructuralRuns — runs that put every test into the last container.

  The structural cut leaves out the white space in front of the last close, and with it
  perhaps the end of a line comment; the line feed that a new function starts with ends the
  comment as well. A body that is `Neutral` ends in the code at the depth it began with. So
  the brace of the new function closes that function alone, and the old tail is read as
  before: the request keeps the strategy.

  Proved here: `scan_added`, `keeps_structural`, `spliceAll_structural`.
-/

import Replay.Proofs.TestFile.NextName
import Replay.Proofs.TestFile.Reading
import Replay.Proofs.TestFile.Runs

namespace Replay.TestFile

open Text

/-- Read behind the brace that opens a function, a body ends in the code and at the depth it began with. -/
def Neutral (body : Text) : Prop := ∃ m : Mode, m.isCode = true ∧ scan .code 2 body = some (m, 2)

/-- A function with a neutral body, put behind a place that a line feed takes back to the code. -/
theorem scan_added {m : Mode} {name body : Text} (hm : m.next '\n' = .code) (hn : isName name = true)
    (hb : Neutral body) : scan m 1 (added name body ++ ['\n']) = some (.code, 1) := by
  obtain ⟨m', hm', hbody⟩ := hb
  have hlead : "\n\n    function ".toList = '\n' :: "\n    function ".toList := by decide
  have hfirst : scan m 1 ['\n'] = some (.code, 1) := by
    rw [scan, deeper_of_not_brace (by decide) (by decide), Option.bind_some, hm]
    rfl
  have hword : scan .code 1 "\n    function ".toList = some (.code, 1) := by decide
  have hopen : scan .code 1 "() public \x7b\n".toList = some (.code, 2) := by decide
  have hclose : scan m' 2 ("    \x7d".toList ++ ['\n']) = some (.code, 1) := by
    rcases isCode_iff.1 hm' with rfl | rfl <;> decide
  unfold added
  rewrite [hlead]
  generalize "\n    function ".toList = word at hword
  generalize "() public \x7b\n".toList = middle at hopen
  generalize "    \x7d".toList = last at hclose
  have hparts : '\n' :: word ++ (name ++ (middle ++ (body ++ last))) ++ ['\n'] =
      ['\n'] ++ (word ++ (name ++ (middle ++ (body ++ (last ++ ['\n']))))) := by simp
  rw [hparts, scan_step hfirst, scan_step hword, scan_step (scan_name (isName_chars hn).2 1), scan_step hopen,
    scan_step hbody, hclose]

/-! ## The structural strategy -/

theorem lastClose_of_structural {source : Text} {c : Cut} (h : Cut.find .structural source = some c) :
    lastClose source = some (c.head ++ c.gap, c.tail) ∧ c.head = trimEnd (c.head ++ c.gap) := by
  obtain ⟨⟨a, b⟩, hlast, rfl⟩ := Option.map_eq_some_iff.1 h
  have hback := trimEnd_append_drop a
  exact ⟨by rw [hback]; exact hlast, by rw [hback]⟩

theorem clean_of_structural {source : Text} {c : Cut} (h : Cut.find .structural source = some c) : c.Clean := by
  obtain ⟨hlast, hhead⟩ := lastClose_of_structural h
  obtain ⟨-, -, r, hr, -⟩ := lastClose_eq_some_iff.1 hlast
  obtain ⟨gap, hgap, hspaces⟩ := trimEnd_append (c.head ++ c.gap)
  rw [← hhead] at hgap
  rw [← List.append_cancel_left hgap] at hspaces
  exact ⟨hspaces, by rw [hr]; exact List.prefix_append ['}'] r⟩

theorem structural_of_lastClose {source a b : Text} (h : lastClose source = some (a, b)) :
    ∃ gap, Cut.find .structural source = some ⟨trimEnd a, gap, b⟩ :=
  ⟨_, Option.map_eq_some_iff.2 ⟨(a, b), h, rfl⟩⟩

theorem structural_of_scan (head gap : Text) {b : Text} {c : Char} {m : Mode} (hm : m.isCode = true)
    (hscan : scan .code 0 (head ++ [c] ++ gap) = some (m, 1)) (hb : LastBrace b) (hc : isSpace c = false)
    (hg : ∀ d ∈ gap, isSpace d = true) :
    Cut.find .structural (head ++ [c] ++ gap ++ b) = some ⟨head ++ [c], gap, b⟩ := by
  have hlast := lastClose_eq_some_iff.2 ⟨rfl, ⟨m, hm, hscan⟩, hb⟩
  refine Option.map_eq_some_iff.2 ⟨_, hlast, ?_⟩
  simp only [trimEnd_run hc hg, List.drop_left]

theorem keeps_structural {q : Request} (hn : isName q.stem = true) (hb : Neutral q.block.body) :
    q.Keeps .structural := by
  intro source c name h hname
  have hnew : isName name = true := by
    rw [hname]
    exact isName_numbered hn _
  obtain ⟨hlast, hhead⟩ := lastClose_of_structural h
  obtain ⟨-, ⟨m, hm, hscan⟩, hbrace⟩ := lastClose_eq_some_iff.1 hlast
  obtain ⟨gap, hgap, hspaces⟩ := trimEnd_append (c.head ++ c.gap)
  rw [← hhead] at hgap
  rw [hgap, scan_append, Option.bind_eq_some_iff] at hscan
  obtain ⟨⟨m₀, depth⟩, hfront, hback⟩ := hscan
  -- the white space left out may have ended a comment: the new line feed ends it as well
  obtain ⟨hm₀, rfl⟩ := scan_spaces (sound_scan (m := .code) trivial hfront) hspaces hback (next_lineFeed hm)
  have hfunction := (scan_step hfront _).trans (scan_added hm₀ hnew hb)
  have hcut := structural_of_scan (c.head ++ inside name q.block.body) ['\n'] (c := '}') (m := .code) rfl
    (by simpa [added_eq] using hfunction) hbrace (by decide) (List.all_eq_true.1 (by decide))
  rw [fill_function]
  simpa [Cut.behind, added_eq] using hcut

/-- Structural splices with neutral bodies do not fail. Each leaves the source up to the cut, the functions so far and
    the old tail, and the next cut is behind its own function. -/
theorem spliceAll_structural {source a b : Text} {qs : List Request} (h : lastClose source = some (a, b))
    (hq : ∀ q ∈ qs, isName q.stem = true ∧ Neutral q.block.body) :
    ∃ steps, spliceAll .structural source qs = some steps ∧ steps.map Step.request = qs ∧
      ∀ before s after, steps = before ++ s :: after →
        s.result.source = trimEnd a ++ ((before ++ [s]).flatMap Step.added ++ '\n' :: b) ∧
        lastClose s.result.source = some (trimEnd a ++ (before ++ [s]).flatMap Step.added ++ ['\n'], b) ∧
        Cut.find .structural s.result.source = some ⟨trimEnd a ++ (before ++ [s]).flatMap Step.added, ['\n'], b⟩ := by
  obtain ⟨gap, hcut⟩ := structural_of_lastClose h
  obtain ⟨steps, hrun, hmap, hall⟩ := exists_steps hcut fun q hm => keeps_structural (hq q hm).1 (hq q hm).2
  refine ⟨steps, hrun, hmap, ?_⟩
  intro before s after he
  obtain ⟨hsource, hnext⟩ := hall before s after he
  exact ⟨hsource, (lastClose_of_structural hnext).1, hnext⟩

/-- The head ends in a comment, and the braces of the block stand in a string and in a comment. -/
theorem spliceAll_structural_of_comment :
    lastClose "T \x7b // end\n\x7d\n".toList = some ("T \x7b // end\n".toList, "\x7d\n".toList) ∧
      (∀ q ∈ [(⟨"test_".toList, ⟨"e(\"\x7d\"); // \x7d".toList⟩⟩ : Request)],
        isName q.stem = true ∧ Neutral q.block.body) ∧
      ∃ steps, spliceAll .structural "T \x7b // end\n\x7d\n".toList
          [⟨"test_".toList, ⟨"e(\"\x7d\"); // \x7d".toList⟩⟩] = some steps ∧
        steps.map Step.request = [⟨"test_".toList, ⟨"e(\"\x7d\"); // \x7d".toList⟩⟩] ∧
        ∀ before s after, steps = before ++ s :: after →
          s.result.source = trimEnd "T \x7b // end\n".toList ++
              ((before ++ [s]).flatMap Step.added ++ '\n' :: "\x7d\n".toList) ∧
          lastClose s.result.source = some (trimEnd "T \x7b // end\n".toList ++
              (before ++ [s]).flatMap Step.added ++ ['\n'], "\x7d\n".toList) ∧
          Cut.find .structural s.result.source = some ⟨trimEnd "T \x7b // end\n".toList ++
              (before ++ [s]).flatMap Step.added, ['\n'], "\x7d\n".toList⟩ := by
  have hlast : lastClose "T \x7b // end\n\x7d\n".toList =
      some ("T \x7b // end\n".toList, "\x7d\n".toList) := by decide
  have hblock : ∀ q ∈ [(⟨"test_".toList, ⟨"e(\"\x7d\"); // \x7d".toList⟩⟩ : Request)],
      isName q.stem = true ∧ Neutral q.block.body :=
    List.forall_mem_singleton.2 ⟨by decide, .code, rfl, by decide⟩
  exact ⟨hlast, hblock, spliceAll_structural hlast hblock⟩

end Replay.TestFile
