/-
  Replay.Proofs.TestFile.Runs — tests spliced into one file, one after another.

  A run takes its requests in order, each into the source that the one before it left, and
  fails with the first that finds no cut. A splice puts its function between the head and
  the tail and leaves one line feed in front of the tail. A request `Keeps` a strategy if
  that strategy cuts there again, behind the new function: then head and tail stay what
  they were, and the functions of a run gather between them in order. Every request keeps
  the literal strategy, since all that is new stands in front of the last closing. The body
  of a function is the text of its block, with a line feed behind a last line that has none.

  Proved here: `body_eq_ended`, `exists_steps`, `keeps_literal`, `spliceAll_literal`.
-/

import Replay.Proofs.Text.Marks
import Replay.TestFile.Splice

namespace Replay.TestFile

open Text

/-- A test that is asked for: what its name begins with, and what it runs. -/
structure Request where
  stem : Text
  block : Block

/-- A request, the source it was spliced into, and what came of it. -/
structure Step where
  request : Request
  source : Text
  result : Spliced

def spliceAll (strategy : Strategy) : Text → List Request → Option (List Step)
  | _, [] => some []
  | source, q :: qs => do
    let r ← splice q.stem strategy source q.block
    let steps ← spliceAll strategy r.source qs
    return ⟨q, source, r⟩ :: steps

/-- The source that a run leaves. -/
def outcome : Text → List Step → Text
  | source, [] => source
  | _, s :: steps => outcome s.result.source steps

/-- What a splice puts behind the head. -/
def added (name body : Text) : Text :=
  "\n\n    function ".toList ++ (name ++ ("() public \x7b\n".toList ++ (body ++ "    \x7d".toList)))

def Step.added (s : Step) : Text := TestFile.added s.result.name s.request.block.body

/-- A text with a line feed behind its last character, unless that is one. -/
def ended : Text → Text
  | [] => []
  | [c] => if c = '\n' then [c] else [c, '\n']
  | c :: d :: s => c :: ended (d :: s)

/-- The cut behind a text that was put between head and tail. -/
def Cut.behind (c : Cut) (t : Text) : Cut := ⟨c.head ++ t, ['\n'], c.tail⟩

def Request.Keeps (strategy : Strategy) (q : Request) : Prop :=
  ∀ source c name, Cut.find strategy source = some c → name = nextName q.stem source →
    Cut.find strategy (c.fill (function name q.block.body)) = some (c.behind (added name q.block.body))

/-- White space is all that a cut leaves out, and its tail starts with the brace that closes the contract. -/
structure Cut.Clean (c : Cut) : Prop where
  spaces : ∀ d ∈ c.gap, isSpace d = true
  closes : ['}'] <+: c.tail

/-! ## Steps -/

theorem body_eq_ended (b : Block) : b.body = ended b.text := by
  obtain ⟨s⟩ := b
  show (if s = [] ∨ s.getLast? = some '\n' then s else s ++ ['\n']) = ended s
  induction s using ended.induct with
  | case1 => rfl
  | case2 => rfl
  | case3 c h => simp [ended, h]
  | case4 c d s ih =>
    rw [ended, ← ih, List.getLast?_cons_cons]
    by_cases hl : (d :: s).getLast? = some '\n' <;> simp [hl]

theorem fill_function (c : Cut) (name body : Text) :
    c.fill (function name body) = c.head ++ (added name body ++ '\n' :: c.tail) := by
  have hlead : "\n\n    function ".toList = '\n' :: '\n' :: "    function ".toList := by decide
  have hend : "    \x7d\n".toList = "    \x7d".toList ++ ['\n'] := by decide
  unfold Cut.fill function added
  rewrite [hlead, hend]
  -- spelled out, the three literals make every comparison of lists unfold them
  generalize "    function ".toList = lead
  generalize "() public \x7b\n".toList = middle
  generalize "    \x7d".toList = last
  simp

theorem splice_of_find {strategy : Strategy} {source : Text} {c : Cut} (h : Cut.find strategy source = some c)
    (q : Request) : splice q.stem strategy source q.block =
      some ⟨c.fill (function (nextName q.stem source) q.block.body), nextName q.stem source⟩ := by
  simp [splice, h]

theorem exists_cut_of_splice {strategy : Strategy} {source : Text} {q : Request} {r : Spliced}
    (h : splice q.stem strategy source q.block = some r) : ∃ c, Cut.find strategy source = some c ∧
      r = ⟨c.fill (function (nextName q.stem source) q.block.body), nextName q.stem source⟩ := by
  obtain ⟨c, hc, rfl⟩ := Option.map_eq_some_iff.1 h
  exact ⟨c, hc, rfl⟩

theorem name_of_splice {strategy : Strategy} {source : Text} {q : Request} {r : Spliced}
    (h : splice q.stem strategy source q.block = some r) : r.name = nextName q.stem source := by
  obtain ⟨c, -, rfl⟩ := exists_cut_of_splice h
  rfl

theorem spliceAll_cons {strategy : Strategy} {source : Text} {q : Request} {qs : List Request} {r : Spliced}
    (h : splice q.stem strategy source q.block = some r) :
    spliceAll strategy source (q :: qs) = (spliceAll strategy r.source qs).map (⟨q, source, r⟩ :: ·) := by
  simp only [spliceAll, h, Option.bind_eq_bind, Option.bind_some]
  cases spliceAll strategy r.source qs <;> rfl

theorem exists_of_spliceAll_cons {strategy : Strategy} {source : Text} {q : Request} {qs : List Request}
    {steps : List Step} (h : spliceAll strategy source (q :: qs) = some steps) :
    ∃ r rest, splice q.stem strategy source q.block = some r ∧ spliceAll strategy r.source qs = some rest ∧
      steps = ⟨q, source, r⟩ :: rest := by
  cases hr : splice q.stem strategy source q.block with
  | none => simp [spliceAll, hr] at h
  | some r =>
    rw [spliceAll_cons hr, Option.map_eq_some_iff] at h
    obtain ⟨rest, hrest, rfl⟩ := h
    exact ⟨r, rest, rfl, hrest, rfl⟩

/-- Every step of a run is a splice into its own source. -/
theorem splice_of_mem {strategy : Strategy} {source : Text} {qs : List Request} {steps : List Step}
    (h : spliceAll strategy source qs = some steps) {s : Step} (hs : s ∈ steps) :
    splice s.request.stem strategy s.source s.request.block = some s.result := by
  induction qs generalizing source steps with
  | nil =>
    cases h
    cases hs
  | cons q qs ih =>
    obtain ⟨r, rest, hr, hrest, rfl⟩ := exists_of_spliceAll_cons h
    rcases List.mem_cons.1 hs with rfl | hs
    · exact hr
    · exact ih hrest hs

theorem outcome_concat (source : Text) (steps : List Step) (s : Step) :
    outcome source (steps ++ [s]) = s.result.source := by
  induction steps generalizing source with
  | nil => rfl
  | cons t steps ih => exact ih t.result.source

/-! ## Runs -/

/-- As long as the requests keep the strategy, none fails and each goes behind the one before it. -/
theorem exists_steps {strategy : Strategy} {source : Text} {c : Cut} {qs : List Request}
    (h : Cut.find strategy source = some c) (hq : ∀ q ∈ qs, q.Keeps strategy) :
    ∃ steps, spliceAll strategy source qs = some steps ∧ steps.map Step.request = qs ∧
      ∀ before s after, steps = before ++ s :: after →
        s.result.source = c.head ++ ((before ++ [s]).flatMap Step.added ++ '\n' :: c.tail) ∧
          Cut.find strategy s.result.source = some (c.behind ((before ++ [s]).flatMap Step.added)) := by
  induction qs generalizing source c with
  | nil =>
    refine ⟨[], rfl, rfl, ?_⟩
    intro before s after he
    cases before <;> cases he
  | cons q qs ih =>
    have hr := splice_of_find h q
    generalize hn : nextName q.stem source = name at hr
    have hnext := hq q List.mem_cons_self source c name h hn.symm
    obtain ⟨steps, hrun, hmap, hall⟩ := ih hnext fun q' hq' => hq q' (List.mem_cons_of_mem q hq')
    refine ⟨⟨q, source, _⟩ :: steps, by rw [spliceAll_cons hr, hrun]; rfl, by rw [List.map_cons, hmap], ?_⟩
    intro before s after he
    cases before with
    | nil =>
      obtain ⟨rfl, rfl⟩ := List.cons.inj he
      simpa [Step.added, fill_function] using hnext
    | cons s' before =>
      obtain ⟨rfl, hrest⟩ := List.cons.inj he
      simpa [Step.added, Cut.behind] using hall before s after hrest

/-! ## The literal strategy -/

theorem literal_of_last {a r : Text} (h : ¬ Cut.closing <:+: '\n' :: '}' :: r) :
    Cut.find .literal (a ++ (Cut.closing ++ r)) = some ⟨a ++ ['}'], ['\n'], '}' :: r⟩ := by
  have hcut : cutLast Cut.closing (a ++ (Cut.closing ++ r)) = some (a, Cut.closing ++ r) :=
    cutLast_of_last (List.prefix_append _ r) (by simp [Cut.closing]) h
  rw [Cut.find, Cut.literal, hcut]
  rfl

/-- A literal cut is at the last closing. -/
theorem exists_last_of_literal {source : Text} {c : Cut} (h : Cut.find .literal source = some c) :
    ∃ a r, source = a ++ (Cut.closing ++ r) ∧ (¬ Cut.closing <:+: '\n' :: '}' :: r) ∧
      c = ⟨a ++ ['}'], ['\n'], '}' :: r⟩ := by
  have hin : Cut.closing <:+: source := by
    apply Classical.byContradiction
    intro hno
    rw [Cut.find, Cut.literal, (cutLast_eq_none_iff (by simp [Cut.closing])).2 hno] at h
    cases h
  obtain ⟨a, r, rfl, hlast⟩ := exists_cutLast (by simp [Cut.closing]) hin
  have hcut := literal_of_last (a := a) (r := r) hlast
  rw [← List.append_assoc, h] at hcut
  exact ⟨a, r, List.append_assoc a _ r, hlast, Option.some.inj hcut⟩

theorem clean_of_literal {source : Text} {c : Cut} (h : Cut.find .literal source = some c) : c.Clean := by
  obtain ⟨a, r, -, -, rfl⟩ := exists_last_of_literal h
  have hfeed : ∀ d ∈ ['\n'], isSpace d = true := List.all_eq_true.1 (by decide)
  exact ⟨hfeed, List.prefix_append ['}'] r⟩

/-- What a splice adds, without its last brace. -/
def inside (name body : Text) : Text :=
  "\n\n    function ".toList ++ (name ++ ("() public \x7b\n".toList ++ (body ++ "    ".toList)))

theorem added_eq (name body : Text) : added name body = inside name body ++ ['}'] := by
  have hend : "    \x7d".toList = "    ".toList ++ ['}'] := by decide
  unfold added inside
  rewrite [hend]
  simp only [List.append_assoc]

/-- Whatever is spliced in, nothing closes behind the seam. -/
theorem keeps_literal (q : Request) : q.Keeps .literal := by
  intro source c name h _
  obtain ⟨a, r, rfl, hlast, rfl⟩ := exists_last_of_literal h
  have hfill := literal_of_last (a := a ++ '}' :: inside name q.block.body) hlast
  rw [fill_function, added_eq]
  simpa [Cut.behind, Cut.closing] using hfill

/-- The source parted at the line feed of its last closing. -/
structure LastClosing (source head tail : Text) : Prop where
  parts : source = head ++ '\n' :: tail
  head_closes : ['}'] <:+ head
  tail_closes : ['}'] <+: tail
  last : ∀ a b, source = a ++ (Cut.closing ++ b) → a.length < head.length

theorem lastClosing_of_last {a r : Text} (h : ¬ Cut.closing <:+: '\n' :: '}' :: r) :
    LastClosing (a ++ (Cut.closing ++ r)) (a ++ ['}']) ('}' :: r) := by
  refine ⟨by simp [Cut.closing], List.suffix_append a _, List.prefix_append _ r, ?_⟩
  intro a' b hb
  apply Classical.byContradiction
  intro hlen
  rw [List.length_append, List.length_singleton] at hlen
  rcases List.append_eq_append_iff.1 hb with ⟨t, rfl, ht⟩ | ⟨t, rfl, -⟩
  · cases t with
    | nil => simp at hlen
    | cons c t =>
      obtain ⟨-, hrest⟩ := List.cons.inj (show '}' :: ('\n' :: '}' :: r) = c :: (t ++ (Cut.closing ++ b)) from ht)
      exact h ⟨t, b, by rw [List.append_assoc, hrest]⟩
  · rw [List.length_append] at hlen
    omega

/-- A run of literal splices leaves head and tail of the last closing as they are, and puts the functions between them:
    each has the name of its step, and around the text of its block, ended, nothing but its frame. -/
theorem spliceAll_literal {source : Text} (h : Cut.closing <:+: source) :
    ∃ head tail, LastClosing source head tail ∧ ∀ qs : List Request,
      ∃ steps, spliceAll .literal source qs = some steps ∧ steps.map Step.request = qs ∧
        outcome source steps =
          head ++ (steps.flatMap (fun s => added s.result.name (ended s.request.block.text)) ++ '\n' :: tail) := by
  obtain ⟨a, r, hsource, hlast⟩ := exists_cutLast (by simp [Cut.closing]) h
  rw [List.append_assoc] at hsource
  subst hsource
  refine ⟨a ++ ['}'], '}' :: r, lastClosing_of_last hlast, ?_⟩
  intro qs
  obtain ⟨steps, hrun, hmap, hall⟩ := exists_steps (literal_of_last hlast) fun q (_ : q ∈ qs) => keeps_literal q
  have hadded : Step.added = fun s => added s.result.name (ended s.request.block.text) := by
    funext s
    rw [Step.added, body_eq_ended]
  refine ⟨steps, hrun, hmap, ?_⟩
  rw [← hadded]
  rcases List.eq_nil_or_concat steps with rfl | ⟨before, s, rfl⟩
  · exact (lastClosing_of_last hlast).parts
  · rw [List.concat_eq_append] at hall ⊢
    rw [outcome_concat]
    exact (hall before s [] rfl).1

theorem spliceAll_literal_of_overlap :
    let source := "\x7d\n\x7d\n\x7d".toList
    let qs : List Request := [⟨"t".toList, ⟨"a();\n\x7d\n\x7d".toList⟩⟩, ⟨"t".toList, ⟨[]⟩⟩]
    Cut.closing <:+: source ∧
      (∃ head tail steps, LastClosing source head tail ∧ spliceAll .literal source qs = some steps ∧
        outcome source steps =
          head ++ (steps.flatMap (fun s => added s.result.name (ended s.request.block.text)) ++ '\n' :: tail)) ∧
      (spliceAll .literal source qs).map (outcome source) =
        some ("\x7d\n\x7d\n\n    function t0() public \x7b\na();\n\x7d\n\x7d\n    \x7d".toList ++
          "\n\n    function t1() public \x7b\n    \x7d\n\x7d".toList) := by
  intro source qs
  have hclosing : Cut.closing <:+: source := by decide
  obtain ⟨head, tail, hlast, hall⟩ := spliceAll_literal hclosing
  obtain ⟨steps, hrun, -, hout⟩ := hall qs
  exact ⟨hclosing, ⟨head, tail, steps, hlast, hrun, hout⟩, by decide +kernel⟩

end Replay.TestFile
