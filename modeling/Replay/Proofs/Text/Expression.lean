/-
  Replay.Proofs.Text.Expression — expressions that find and replace in a text.

  An expression is a pattern and a template. A pattern takes a piece of a text from a place
  on, in one or several ways, of which the one it prefers comes first: a run of a class is
  tried at its longest, and shorter if what follows it does not fit. Line starts, line
  ends and word edges take nothing and ask what stands around the place. Groups are the
  pieces that the template puts into the replacement.

  A pattern whose classes lack the line feed (`oneLine`) takes nothing behind one, and sees
  a line feed before it as the start of the text. So an expression with such a pattern
  works on a text line by line.

  Proved here: `takes_iff`, `ways_append_newline`, `ways_behind_newline`,
  `Expression.stopsAt`, `Expression.rule_eq_none_iff`, `head?_longest`, `head?_run`.
-/

import Replay.Proofs.Text.Marks
import Replay.Proofs.Text.Sweep
import Replay.Text.Word

namespace Replay.Text

/-! ## Patterns -/

inductive Pattern where
  | empty
  | one (p : Char → Bool)
  /-- A run of a class, of `most` characters if there is a bound. -/
  | many (most : Option Nat) (p : Char → Bool)
  | lineStart
  | lineEnd
  | wordEdge
  | group (p : Pattern)
  | seq (p q : Pattern)

/-- What a pattern takes, and its groups in the order in which they open. -/
structure Way where
  taken : Text
  groups : List Text

namespace Way

def nothing : Way := ⟨[], []⟩

instance : Append Way := ⟨fun w v => ⟨w.taken ++ v.taken, w.groups ++ v.groups⟩⟩

/-- All that was taken is a group of its own. -/
def group (w : Way) : Way := ⟨w.taken, w.taken :: w.groups⟩

theorem taken_append (w v : Way) : (w ++ v).taken = w.taken ++ v.taken := rfl

@[simp] theorem mk_append_mk (t u : Text) (gs hs : List Text) :
    (⟨t, gs⟩ ++ ⟨u, hs⟩ : Way) = ⟨t ++ u, gs ++ hs⟩ := rfl

@[simp] theorem group_mk (t : Text) (gs : List Text) : group ⟨t, gs⟩ = ⟨t, t :: gs⟩ := rfl

@[simp] theorem nothing_append (w : Way) : nothing ++ w = w := rfl

@[simp] theorem append_nothing (w : Way) : w ++ nothing = w := by
  cases w
  simp [nothing]

end Way

/-- A run of a class, the longest first. -/
def runs (p : Char → Bool) : Text → List Text
  | [] => [[]]
  | c :: s => if p c then (runs p s).map (c :: ·) ++ [[]] else [[]]

def within (most : Option Nat) (s : Text) : Text :=
  match most with
  | some n => s.take n
  | none => s

def atLineStart (before : Option Char) : Bool := before = none || before = some '\n'

def atLineEnd (s : Text) : Bool := s.head? = none || s.head? = some '\n'

def atWordEdge (before : Option Char) (s : Text) : Bool := before.any isWord != s.head?.any isWord

namespace Pattern

/-- The ways in which a pattern takes from a place on, the one it prefers first. -/
def ways : Pattern → Option Char → Text → List Way
  | empty, _, _ => [.nothing]
  | one _, _, [] => []
  | one p, _, c :: _ => if p c then [⟨[c], []⟩] else []
  | many most p, _, s => (runs p (within most s)).map fun t => ⟨t, []⟩
  | lineStart, before, _ => if atLineStart before then [.nothing] else []
  | lineEnd, _, s => if atLineEnd s then [.nothing] else []
  | wordEdge, before, s => if atWordEdge before s then [.nothing] else []
  | group p, before, s => (ways p before s).map Way.group
  | seq p q, before, s =>
    (ways p before s).flatMap fun w =>
      (ways q (behind before w.taken) (s.drop w.taken.length)).map fun v => w ++ v

def literal : Text → Pattern
  | [] => empty
  | c :: t => seq (one (· = c)) (literal t)

/-- A run of a class that is not empty. -/
def several (p : Char → Bool) : Pattern := seq (one p) (many none p)

def chain : List Pattern → Pattern
  | [] => empty
  | p :: ps => seq p (chain ps)

/-- No class of the pattern has the line feed. -/
def oneLine : Pattern → Bool
  | one p | many _ p => !p '\n'
  | group p => p.oneLine
  | seq p q => p.oneLine && q.oneLine
  | _ => true

/-- The pattern takes a character whenever it takes at all. -/
def consumes : Pattern → Bool
  | one _ => true
  | group p => p.consumes
  | seq p q => p.consumes || q.consumes
  | _ => false

/-- The pattern takes `t` in front of `r`, in some way. -/
def Takes : Pattern → Option Char → Text → Text → Prop
  | empty, _, t, _ => t = []
  | one p, _, t, _ => ∃ c, p c = true ∧ t = [c]
  | many most p, _, t, _ => (∀ c ∈ t, p c = true) ∧ ∀ n ∈ most, t.length ≤ n
  | lineStart, before, t, _ => t = [] ∧ atLineStart before = true
  | lineEnd, _, t, r => t = [] ∧ atLineEnd r = true
  | wordEdge, before, t, r => t = [] ∧ atWordEdge before r = true
  | group p, before, t, r => p.Takes before t r
  | seq p q, before, t, r => ∃ u v, t = u ++ v ∧ p.Takes before u (v ++ r) ∧ q.Takes (behind before u) v r

end Pattern

open Pattern

/-! ## What is taken -/

theorem mem_runs_iff {p : Char → Bool} {s t : Text} : t ∈ runs p s ↔ t <+: s ∧ ∀ c ∈ t, p c = true := by
  induction s generalizing t with
  | nil =>
    simp only [runs, List.mem_singleton, List.prefix_nil]
    exact ⟨fun h => ⟨h, by simp [h]⟩, And.left⟩
  | cons c s ih =>
    rw [runs]
    cases t with
    | nil => split <;> simp
    | cons d t =>
      split
      · next hc =>
        simp only [List.mem_append, List.mem_map, List.cons.injEq, ih, List.mem_singleton, List.cons_prefix_cons,
          List.forall_mem_cons]
        constructor
        · intro h
          rcases h with ⟨u, ⟨hu, hp⟩, rfl, rfl⟩ | h
          · exact ⟨⟨rfl, hu⟩, hc, hp⟩
          · cases h
        · intro h
          obtain ⟨⟨rfl, hu⟩, -, hp⟩ := h
          exact .inl ⟨t, ⟨hu, hp⟩, rfl, rfl⟩
      · next hc =>
        simp only [List.mem_singleton, List.cons_prefix_cons, List.forall_mem_cons, reduceCtorEq, false_iff]
        intro h
        obtain ⟨⟨rfl, -⟩, hd, -⟩ := h
        exact hc hd

theorem mem_within_runs_iff {most : Option Nat} {p : Char → Bool} {s t : Text} :
    t ∈ runs p (within most s) ↔ t <+: s ∧ (∀ c ∈ t, p c = true) ∧ ∀ n ∈ most, t.length ≤ n := by
  cases most with
  | none => simp [within, mem_runs_iff]
  | some n =>
    simp only [within, mem_runs_iff, List.prefix_take_iff, Option.mem_some_iff, forall_eq']
    constructor
    · exact fun ⟨⟨hp, hn⟩, hc⟩ => ⟨hp, hc, hn⟩
    · exact fun ⟨hp, hc, hn⟩ => ⟨⟨hp, hn⟩, hc⟩

/-- Every way takes from the place on. -/
theorem exists_takes {p : Pattern} {before : Option Char} {s : Text} {w : Way} (h : w ∈ p.ways before s) :
    ∃ r, s = w.taken ++ r ∧ p.Takes before w.taken r := by
  induction p generalizing before s w with
  | empty =>
    obtain rfl := List.mem_singleton.1 h
    exact ⟨s, rfl, rfl⟩
  | one p =>
    cases s with
    | nil => cases h
    | cons c s =>
      obtain ⟨hc, rfl⟩ : p c = true ∧ w = ⟨[c], []⟩ := by simpa [ways] using h
      exact ⟨s, rfl, c, hc, rfl⟩
  | many most p =>
    obtain ⟨t, ht, rfl⟩ := List.mem_map.1 h
    obtain ⟨⟨r, rfl⟩, hp, hn⟩ := mem_within_runs_iff.1 ht
    exact ⟨r, rfl, hp, hn⟩
  | lineStart | lineEnd | wordEdge =>
    rw [ways] at h
    split at h
    · next hs =>
      obtain rfl := List.mem_singleton.1 h
      exact ⟨s, rfl, rfl, hs⟩
    · cases h
  | group p ih =>
    obtain ⟨v, hv, rfl⟩ := List.mem_map.1 h
    obtain ⟨r, hs, ht⟩ := ih hv
    exact ⟨r, hs, ht⟩
  | seq p q ihp ihq =>
    obtain ⟨u, hu, h⟩ := List.mem_flatMap.1 h
    obtain ⟨v, hv, rfl⟩ := List.mem_map.1 h
    obtain ⟨r, rfl, hp⟩ := ihp hu
    rw [List.drop_left] at hv
    obtain ⟨r, rfl, hq⟩ := ihq hv
    exact ⟨r, (List.append_assoc ..).symm, u.taken, v.taken, rfl, hp, hq⟩

theorem exists_way {p : Pattern} {before : Option Char} {t r : Text} (h : p.Takes before t r) :
    ∃ w ∈ p.ways before (t ++ r), w.taken = t := by
  induction p generalizing before t r with
  | empty => exact ⟨.nothing, List.mem_singleton.2 rfl, (show t = [] from h).symm⟩
  | one p =>
    obtain ⟨c, hc, rfl⟩ := h
    exact ⟨⟨[c], []⟩, by simp [ways, hc], rfl⟩
  | many most p =>
    have ht : t ∈ runs p (within most (t ++ r)) := mem_within_runs_iff.2 ⟨List.prefix_append t r, h⟩
    exact ⟨⟨t, []⟩, List.mem_map_of_mem ht, rfl⟩
  | lineStart | lineEnd | wordEdge =>
    obtain ⟨rfl, hs⟩ := h
    exact ⟨.nothing, by simp [ways, hs], rfl⟩
  | group p ih =>
    obtain ⟨w, hw, ht⟩ := ih h
    exact ⟨w.group, List.mem_map_of_mem hw, ht⟩
  | seq p q ihp ihq =>
    obtain ⟨u, v, rfl, hu, hv⟩ := h
    obtain ⟨w, hw, rfl⟩ := ihp hu
    obtain ⟨x, hx, rfl⟩ := ihq hv
    refine ⟨w ++ x, List.mem_flatMap.2 ⟨w, by rwa [List.append_assoc], List.mem_map_of_mem ?_⟩, rfl⟩
    rwa [List.append_assoc, List.drop_left]

/-- A pattern takes a text in front of another exactly if one of its ways does. -/
theorem takes_iff {p : Pattern} {before : Option Char} {t r : Text} :
    p.Takes before t r ↔ ∃ w ∈ p.ways before (t ++ r), w.taken = t := by
  constructor
  · exact exists_way
  · intro h
    obtain ⟨w, hw, rfl⟩ := h
    obtain ⟨r', hr, h⟩ := exists_takes hw
    rwa [List.append_cancel_left hr]

theorem takes_literal {m : Text} {before : Option Char} {t r : Text} :
    (literal m).Takes before t r ↔ t = m := by
  induction m generalizing before t r with
  | nil => rfl
  | cons c m ih =>
    rw [literal, Takes]
    constructor
    · intro h
      obtain ⟨_, v, rfl, ⟨d, hd, rfl⟩, hm⟩ := h
      obtain rfl : d = c := by simpa using hd
      rw [ih.1 hm]
      rfl
    · rintro rfl
      exact ⟨[c], m, rfl, ⟨c, by simp, rfl⟩, ih.2 rfl⟩

theorem takes_several {p : Char → Bool} {before : Option Char} {t r : Text} :
    (several p).Takes before t r ↔ t ≠ [] ∧ ∀ c ∈ t, p c = true := by
  rw [several, Takes]
  constructor
  · intro h
    obtain ⟨_, v, rfl, ⟨c, hc, rfl⟩, hv, -⟩ := h
    exact ⟨by simp, List.forall_mem_cons.2 ⟨hc, hv⟩⟩
  · intro h
    obtain ⟨c, v, rfl⟩ := List.exists_cons_of_ne_nil h.1
    obtain ⟨hc, hv⟩ := List.forall_mem_cons.1 h.2
    exact ⟨[c], v, rfl, ⟨c, hc, rfl⟩, hv, by simp⟩

theorem taken_ne_nil {p : Pattern} (hp : p.consumes = true) {before : Option Char} {t r : Text}
    (h : p.Takes before t r) : t ≠ [] := by
  induction p generalizing before t r with
  | one p =>
    obtain ⟨c, -, rfl⟩ := h
    simp
  | group p ih => exact ih hp h
  | seq p q ihp ihq =>
    obtain ⟨u, v, rfl, hu, hv⟩ := h
    rcases Bool.or_eq_true _ _ ▸ hp with hp | hq
    · simp [ihp hp hu]
    · simp [ihq hq hv]
  | empty | many | lineStart | lineEnd | wordEdge => cases hp

/-! ## Line by line -/

theorem runs_append_newline {p : Char → Bool} (hp : p '\n' = false) (s r : Text) :
    runs p (s ++ '\n' :: r) = runs p s := by
  induction s with
  | nil => simp [runs, hp]
  | cons c s ih => simp only [List.cons_append, runs, ih]

theorem runs_within_append_newline {p : Char → Bool} (hp : p '\n' = false) (most : Option Nat) (s r : Text) :
    runs p (within most (s ++ '\n' :: r)) = runs p (within most s) := by
  cases most with
  | none => exact runs_append_newline hp s r
  | some n =>
    simp only [within, List.take_append]
    cases hn : n - s.length with
    | zero => simp
    | succ k => exact runs_append_newline hp _ _

/-- What stands behind a line feed is not read. -/
theorem ways_append_newline {p : Pattern} (hp : p.oneLine = true) (before : Option Char) (s r : Text) :
    p.ways before (s ++ '\n' :: r) = p.ways before s := by
  induction p generalizing before s with
  | empty => rfl
  | one p =>
    cases s with
    | nil => simpa [oneLine, ways] using hp
    | cons c s => rfl
  | many most p => rw [ways, ways, runs_within_append_newline (by simpa [oneLine] using hp)]
  | lineStart => rfl
  | lineEnd => cases s <;> rfl
  | wordEdge => cases s <;> rfl
  | group p ih => rw [ways, ways, ih hp]
  | seq p q ihp ihq =>
    obtain ⟨hp, hq⟩ : p.oneLine = true ∧ q.oneLine = true := by simpa [oneLine] using hp
    rw [ways, ways, ihp hp, List.flatMap_def, List.flatMap_def]
    refine congrArg _ (List.map_congr_left fun w hw => ?_)
    obtain ⟨u, rfl, -⟩ := exists_takes hw
    rw [List.append_assoc, List.drop_left, List.drop_left, ihq hq]

/-- A line feed is seen as the start of the text. -/
theorem ways_behind_newline (p : Pattern) (s : Text) : p.ways (some '\n') s = p.ways none s := by
  induction p generalizing s with
  | empty | many | lineStart | lineEnd => rfl
  | one p => cases s <;> rfl
  | wordEdge => rfl
  | group p ih => rw [ways, ways, ih]
  | seq p q ihp ihq =>
    rw [ways, ways, ihp]
    refine congrArg (List.flatMap · _) (funext fun w => ?_)
    cases ht : w.taken with
    | nil => rw [behind_nil, behind_nil, ihq]
    | cons c t => rw [behind_cons, behind_cons]

/-! ## Expressions -/

inductive Slot where
  | text (t : Text)
  | group (number : Nat)

def fill (groups : List Text) (template : List Slot) : Text :=
  template.flatMap fun
    | .text t => t
    | .group number => (groups[number - 1]?).getD []

structure Expression where
  pattern : Pattern
  template : List Slot
  consumes : pattern.consumes = true

namespace Expression

/-- The way that the pattern prefers, replaced. -/
def rule (e : Expression) : Rule Text := fun before s =>
  (e.pattern.ways before s).head?.map fun w => ⟨w.taken.length - 1, fill w.groups e.template⟩

/-- The pattern takes a piece of the text somewhere. -/
def Matches (e : Expression) (s : Text) : Prop :=
  ∃ a t r, s = a ++ (t ++ r) ∧ e.pattern.Takes a.getLast? t r

theorem rule_eq_none_iff {e : Expression} {before : Option Char} {s : Text} :
    e.rule before s = none ↔ ∀ t r, s = t ++ r → ¬ e.pattern.Takes before t r := by
  rw [rule, Option.map_eq_none_iff, List.head?_eq_none_iff, List.eq_nil_iff_forall_not_mem]
  constructor
  · intro h t r heq ht
    subst heq
    obtain ⟨w, hw, -⟩ := takes_iff.1 ht
    exact h w hw
  · intro h w hw
    obtain ⟨r, hs, ht⟩ := exists_takes hw
    exact h _ r hs ht

theorem rule_eq_some {e : Expression} {before : Option Char} {s : Text} {w : Way}
    (h : (e.pattern.ways before s).head? = some w) :
    e.rule before s = some ⟨w.taken.length - 1, fill w.groups e.template⟩ := by
  rw [rule, h]
  rfl

theorem stopsAt {e : Expression} (h : e.pattern.oneLine = true) : StopsAt e.rule '\n' where
  unread before s r := by rw [rule, rule, ways_append_newline h]
  covered before s f hf := by
    obtain ⟨w, hw, rfl⟩ := Option.map_eq_some_iff.1 hf
    obtain ⟨r, rfl, ht⟩ := exists_takes (List.mem_of_head? hw)
    have := List.length_pos_iff.2 (taken_ne_nil e.consumes ht)
    show w.taken.length - 1 < (w.taken ++ r).length
    rw [List.length_append]
    omega
  fresh s := by rw [rule, rule, ways_behind_newline]

end Expression

/-! ## The preferred way -/

section Preferred

variable {β : Type} {p : Char → Bool} {before : Option Char} {k : Way → Text → List β} {y : β}

/-- What comes of every way, in order, if `k` goes on from what it took and from the text behind it. -/
def Pattern.goOn (p : Pattern) (before : Option Char) (s : Text) (k : Way → Text → List β) : List β :=
  (p.ways before s).flatMap fun w => k w (s.drop w.taken.length)

theorem ways_eq_goOn (p : Pattern) (before : Option Char) (s : Text) :
    p.ways before s = p.goOn before s fun w _ => [w] := (List.flatMap_singleton' _).symm

theorem goOn_seq (p q : Pattern) (before : Option Char) (s : Text) (k : Way → Text → List β) :
    (seq p q).goOn before s k =
      p.goOn before s fun w r => q.goOn (behind before w.taken) r fun v r' => k (w ++ v) r' := by
  simp only [goOn, ways, List.flatMap_assoc, List.flatMap_map, List.drop_drop, Way.taken_append, List.length_append]

theorem goOn_chain_cons (p : Pattern) (ps : List Pattern) (before : Option Char) (s : Text)
    (k : Way → Text → List β) : (chain (p :: ps)).goOn before s k =
      p.goOn before s fun w r => (chain ps).goOn (behind before w.taken) r fun v r' => k (w ++ v) r' :=
  goOn_seq ..

theorem goOn_group (p : Pattern) (before : Option Char) (s : Text) (k : Way → Text → List β) :
    (group p).goOn before s k = p.goOn before s fun w r => k w.group r := by
  rw [goOn, ways, List.flatMap_map]
  rfl

theorem goOn_empty (before : Option Char) (s : Text) (k : Way → Text → List β) :
    empty.goOn before s k = k .nothing s := by
  simp [goOn, ways, Way.nothing]

theorem goOn_chain_nil (before : Option Char) (s : Text) (k : Way → Text → List β) :
    (chain []).goOn before s k = k .nothing s := goOn_empty ..

theorem goOn_one {c : Char} (hc : p c = true) (before : Option Char) (s : Text) (k : Way → Text → List β) :
    (one p).goOn before (c :: s) k = k ⟨[c], []⟩ s := by
  simp [goOn, ways, hc]

theorem goOn_literal (t : Text) (before : Option Char) (s : Text) (k : Way → Text → List β) :
    (literal t).goOn before (t ++ s) k = k ⟨t, []⟩ s := by
  induction t generalizing before k with
  | nil => exact goOn_empty ..
  | cons c t ih =>
    rw [literal, goOn_seq, List.cons_append, goOn_one (by simp), ih]
    rfl

theorem goOn_lineStart (h : atLineStart before = true) (s : Text) (k : Way → Text → List β) :
    lineStart.goOn before s k = k .nothing s := by
  simp [goOn, ways, h, Way.nothing]

theorem goOn_lineEnd (before : Option Char) {s : Text} (h : atLineEnd s = true) (k : Way → Text → List β) :
    lineEnd.goOn before s k = k .nothing s := by
  simp [goOn, ways, h, Way.nothing]

theorem goOn_wordEdge {s : Text} (h : atWordEdge before s = true) (k : Way → Text → List β) :
    wordEdge.goOn before s k = k .nothing s := by
  simp [goOn, ways, h, Way.nothing]

theorem exists_of_mem_goOn {p : Pattern} {s : Text} (h : y ∈ p.goOn before s k) :
    ∃ w r, s = w.taken ++ r ∧ p.Takes before w.taken r ∧ y ∈ k w r := by
  obtain ⟨w, hw, h⟩ := List.mem_flatMap.1 h
  obtain ⟨r, rfl, ht⟩ := exists_takes hw
  rw [List.drop_left] at h
  exact ⟨w, r, rfl, ht, h⟩

theorem flatMap_runs {g : Text → List β} {r : Text} (h : ∀ u ∈ runs p r, u ≠ [] → g u = []) :
    (runs p r).flatMap g = g [] := by
  cases r with
  | nil => simp [runs]
  | cons c r =>
    rw [runs] at h ⊢
    split
    · next hc =>
      rw [if_pos hc] at h
      have hnil : ((runs p r).map (c :: ·)).flatMap g = [] := by
        rw [List.flatMap_eq_nil_iff]
        intro u hu
        obtain ⟨v, -, rfl⟩ := List.mem_map.1 hu
        exact h _ (List.mem_append_left _ hu) (by simp)
      rw [List.flatMap_append, hnil]
      simp
    · simp

theorem head?_flatMap_runs {g : Text → List β} {t r : Text} (ht : ∀ c ∈ t, p c = true)
    (hlong : ∀ u ∈ runs p r, u ≠ [] → g (t ++ u) = []) (h : (g t).head? = some y) :
    ((runs p (t ++ r)).flatMap g).head? = some y := by
  induction t generalizing g with
  | nil => rw [List.nil_append, flatMap_runs (g := g) hlong, h]
  | cons c t ih =>
    obtain ⟨hc, ht⟩ := List.forall_mem_cons.1 ht
    have hrest := ih (g := fun u => g (c :: u)) ht hlong h
    rw [List.cons_append, runs, if_pos hc, List.flatMap_append, List.flatMap_map, List.head?_append, hrest]
    rfl

/-- Of the runs behind which the rest fits, the longest is preferred. -/
theorem head?_longest {t r : Text} (ht : ∀ c ∈ t, p c = true)
    (hlong : ∀ u v, u ≠ [] → r = u ++ v → k ⟨t ++ u, []⟩ v = []) (h : (k ⟨t, []⟩ r).head? = some y) :
    ((many none p).goOn before (t ++ r) k).head? = some y := by
  rw [goOn, ways, List.flatMap_map]
  refine head?_flatMap_runs ht (fun u hu hne => ?_) (by rwa [List.drop_left])
  obtain ⟨v, rfl⟩ := (mem_runs_iff.1 hu).1
  rw [← List.append_assoc, List.drop_left]
  exact hlong u v hne rfl

/-- A run that cannot go on is preferred if the rest fits behind it. -/
theorem head?_run {most : Option Nat} {t r : Text} (hn : ∀ n ∈ most, t.length ≤ n) (ht : ∀ c ∈ t, p c = true)
    (hr : ∀ c ∈ r.head?, p c = false) (h : (k ⟨t, []⟩ r).head? = some y) :
    ((many most p).goOn before (t ++ r) k).head? = some y := by
  obtain ⟨r', hwithin, hr'⟩ : ∃ r', within most (t ++ r) = t ++ r' ∧ r' <+: r := by
    cases most with
    | none => exact ⟨r, rfl, List.prefix_refl r⟩
    | some n =>
      refine ⟨r.take (n - t.length), ?_, List.take_prefix ..⟩
      rw [within, List.take_append, List.take_of_length_le (hn n rfl)]
  rw [goOn, ways, List.flatMap_map, hwithin]
  refine head?_flatMap_runs ht (fun u hu hne => ?_) (by rwa [List.drop_left])
  obtain ⟨hu, hp⟩ := mem_runs_iff.1 hu
  obtain ⟨w, rfl⟩ := hu.trans hr'
  cases u with
  | nil => exact absurd rfl hne
  | cons c u =>
    have hc := hp c List.mem_cons_self
    rw [hr c rfl] at hc
    cases hc

theorem head?_several {t r : Text} (hne : t ≠ []) (ht : ∀ c ∈ t, p c = true) (hr : ∀ c ∈ r.head?, p c = false)
    (h : (k ⟨t, []⟩ r).head? = some y) : ((several p).goOn before (t ++ r) k).head? = some y := by
  obtain ⟨c, t, rfl⟩ := List.exists_cons_of_ne_nil hne
  obtain ⟨hc, ht⟩ := List.forall_mem_cons.1 ht
  rw [several, goOn_seq, List.cons_append, goOn_one hc]
  exact head?_run (by simp) ht hr h

end Preferred

end Replay.Text
