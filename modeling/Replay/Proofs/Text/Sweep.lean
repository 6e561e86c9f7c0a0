/-
  Replay.Proofs.Text.Sweep — a sweep step by step.

  A sweep that stands between two characters knows the one before it; `behind` is that
  character after a stretch of text. Where the rule finds something, the sweep goes on
  behind the whole match; a text in which the rule finds nothing is kept character by
  character (`Silent`). A character that the rule never reads past (`StopsAt`) parts a text
  into two that are swept on their own. The rule is asked at every place that no earlier
  match covers (`Asked`), and what a sweep finds is what the rule finds where it is asked.

  Proved here: `sweepFrom_skip`, `sweepFrom_found`, `silent_iff_kept`,
  `StopsAt.finds_append`, `mem_finds_iff`, `asked_or_covered`, `not_asked_of_covered`.
-/

import Replay.Text.Sweep

namespace Replay.Text

variable {α : Type} {rule : Rule α}

/-- The character just before what follows `t`. -/
def behind (before : Option Char) (t : Text) : Option Char := t.getLast?.or before

@[simp] theorem behind_none (t : Text) : behind none t = t.getLast? := Option.or_none

@[simp] theorem behind_nil (before : Option Char) : behind before [] = before := rfl

@[simp] theorem behind_cons (before : Option Char) (c : Char) (t : Text) :
    behind before (c :: t) = behind (some c) t := by
  simp only [behind, List.getLast?_cons]
  cases t.getLast? <;> rfl

@[simp] theorem behind_append (before : Option Char) (t u : Text) :
    behind before (t ++ u) = behind (behind before t) u := by
  induction t generalizing before with
  | nil => rfl
  | cons c t ih => simp [ih]

/-! ## Steps -/

theorem sweepFrom_skip (before : Option Char) (t s : Text) :
    sweepFrom rule before t.length (t ++ s) = sweepFrom rule (behind before t) 0 s := by
  induction t generalizing before with
  | nil => rfl
  | cons c t ih => simp [sweepFrom, ih]

theorem sweepFrom_kept {before : Option Char} {c : Char} {s : Text}
    (h : rule before (c :: s) = none) :
    sweepFrom rule before 0 (c :: s) = .kept c :: sweepFrom rule (some c) 0 s := by
  simp [sweepFrom, h]

/-- A match is taken as a whole, and the sweep goes on behind it. -/
theorem sweepFrom_found {before : Option Char} {c : Char} {t s : Text} {value : α}
    (h : rule before (c :: t ++ s) = some ⟨t.length, value⟩) :
    sweepFrom rule before 0 (c :: t ++ s) =
      .found (c :: t) value :: sweepFrom rule (behind (some c) t) 0 s := by
  rw [List.cons_append] at h ⊢
  simp [sweepFrom, h, sweepFrom_skip]

/-! ## Where nothing is found -/

def Silent (rule : Rule α) : Option Char → Text → Prop
  | _, [] => True
  | before, c :: s => rule before (c :: s) = none ∧ Silent rule (some c) s

theorem silent_iff_kept {before : Option Char} {s : Text} :
    Silent rule before s ↔ sweepFrom rule before 0 s = s.map .kept := by
  induction s generalizing before with
  | nil => simp [Silent, sweepFrom]
  | cons c s ih =>
    simp only [Silent, ih, sweepFrom, List.map_cons]
    split
    · next hf => simp [hf]
    · next hf => simp [hf]

/-- A rule that asks for the start of a text finds nothing behind it. -/
theorem silent_of_anchored (h : ∀ c s, rule (some c) s = none) (c : Char) (s : Text) :
    Silent rule (some c) s := by
  induction s generalizing c with
  | nil => trivial
  | cons d s ih => exact ⟨h c _, ih d⟩

theorem silent_of_unmatched (h : ∀ c s, rule (some c) s = none) {s : Text} (hf : rule none s = none) :
    Silent rule none s := by
  cases s with
  | nil => trivial
  | cons c s => exact ⟨hf, silent_of_anchored h c s⟩

/-! ## Where every match ends -/

/-- No match reaches `c`, and behind `c` the rule reads as at the start of a text. -/
structure StopsAt (rule : Rule α) (c : Char) : Prop where
  unread : ∀ before s r, rule before (s ++ c :: r) = rule before s
  covered : ∀ before s f, rule before s = some f → f.more < s.length
  fresh : ∀ s, rule (some c) s = rule none s

theorem StopsAt.sweepFrom_append {c : Char} (h : StopsAt rule c) {before : Option Char} {skip : Nat} {a : Text}
    (hskip : skip ≤ a.length) (b : Text) : sweepFrom rule before skip (a ++ c :: b) =
      sweepFrom rule before skip a ++ .kept c :: sweepFrom rule (some c) 0 b := by
  induction a generalizing before skip with
  | nil =>
    obtain rfl : skip = 0 := Nat.le_zero.1 hskip
    have hc : rule before (c :: b) = none := by
      rw [← List.nil_append (c :: b), h.unread, Option.eq_none_iff_forall_ne_some]
      intro f hf
      exact Nat.not_lt_zero _ (h.covered before [] f hf)
    exact sweepFrom_kept hc
  | cons d a ih =>
    rw [List.length_cons] at hskip
    cases skip with
    | succ k => exact ih (by omega)
    | zero =>
      have hd := h.unread before (d :: a) b
      rw [List.cons_append] at hd ⊢
      simp only [sweepFrom, hd]
      split
      · next f hf =>
        have hmore := h.covered before (d :: a) f hf
        rw [← List.cons_append, List.take_append_of_le_length hmore, ih (Nat.le_of_lt_succ hmore), List.cons_append]
      · rw [ih (Nat.zero_le _), List.cons_append]

theorem StopsAt.sweepFrom_behind {c : Char} (h : StopsAt rule c) (s : Text) :
    sweepFrom rule (some c) 0 s = sweepFrom rule none 0 s := by
  cases s with
  | nil => rfl
  | cons d s => simp only [sweepFrom, h.fresh]

theorem StopsAt.finds_append {c : Char} (h : StopsAt rule c) (a b : Text) :
    finds rule (a ++ c :: b) = finds rule a ++ finds rule b := by
  rw [finds, sweep, h.sweepFrom_append (Nat.zero_le _), h.sweepFrom_behind, List.filterMap_append]
  rfl

/-! ## Where the rule is asked -/

/-- How many characters behind `a` belong to a match that was taken in `a`. -/
def pending (rule : Rule α) : Option Char → Nat → Text → Text → Nat
  | _, skip, [], _ => skip
  | _, skip + 1, c :: a, r => pending rule (some c) skip a r
  | before, 0, c :: a, r =>
    match rule before (c :: a ++ r) with
    | some f => pending rule (some c) f.more a r
    | none => pending rule (some c) 0 a r

def Asked (rule : Rule α) (s a : Text) : Prop := ∃ r, s = a ++ r ∧ pending rule none 0 a r = 0

theorem asked_iff_pending {s a r : Text} (hs : s = a ++ r) : Asked rule s a ↔ pending rule none 0 a r = 0 := by
  constructor
  · intro h
    obtain ⟨u, hu, h⟩ := h
    rwa [List.append_cancel_left (hs.symm.trans hu)]
  · intro h
    exact ⟨r, hs, h⟩

theorem pending_append (before : Option Char) (skip : Nat) (a b r : Text) :
    pending rule before skip (a ++ b) r = pending rule (behind before a) (pending rule before skip a (b ++ r)) b r := by
  induction a generalizing before skip with
  | nil => cases skip <;> rfl
  | cons c a ih =>
    cases skip with
    | succ k => simp [pending, ih]
    | zero =>
      simp only [List.cons_append, pending, List.append_assoc, behind_cons]
      cases rule before (c :: (a ++ (b ++ r))) with
      | some f => exact ih _ _
      | none => exact ih _ _

/-- Inside a match nothing is asked. -/
theorem pending_inside {b : Text} {k : Nat} (h : b.length ≤ k) (before : Option Char) (r : Text) :
    pending rule before k b r = k - b.length := by
  induction b generalizing before k with
  | nil => cases k <;> rfl
  | cons c b ih =>
    cases k with
    | zero => simp at h
    | succ k =>
      rw [List.length_cons] at h
      rw [pending, ih (by omega), List.length_cons]
      omega

/-- What is pending was taken at an earlier place, if not from the start. -/
theorem exists_of_pending {before : Option Char} {skip n : Nat} {a r : Text}
    (h : pending rule before skip a r = n + 1) :
    skip = a.length + (n + 1) ∨ ∃ b t f, a = b ++ t ∧ t ≠ [] ∧ pending rule before skip b (t ++ r) = 0 ∧
      rule (behind before b) (t ++ r) = some f ∧ f.more = t.length + n := by
  induction a generalizing before skip with
  | nil =>
    left
    cases skip with
    | zero => simp [pending] at h
    | succ k => simpa [pending] using h
  | cons c a ih =>
    cases skip with
    | succ k =>
      rw [pending] at h
      rcases ih h with hk | ⟨b, t, f, rfl, hne, hb, hf, hmore⟩
      · left
        rw [List.length_cons]
        omega
      · right
        exact ⟨c :: b, t, f, rfl, hne, by rwa [pending], by rwa [behind_cons], hmore⟩
    | zero =>
      right
      rw [pending] at h
      split at h
      · next g hg =>
        rcases ih h with hk | ⟨b, t, f, rfl, hne, hb, hf, hmore⟩
        · exact ⟨[], c :: a, g, rfl, by simp, rfl, hg, by rw [List.length_cons]; omega⟩
        · refine ⟨c :: b, t, f, rfl, hne, ?_, by rwa [behind_cons], hmore⟩
          simp only [List.cons_append, List.append_assoc] at hg
          simp [pending, hg, hb]
      · next hg =>
        rcases ih h with hk | ⟨b, t, f, rfl, hne, hb, hf, hmore⟩
        · omega
        · refine ⟨c :: b, t, f, rfl, hne, ?_, by rwa [behind_cons], hmore⟩
          simp only [List.cons_append, List.append_assoc] at hg
          simp [pending, hg, hb]

theorem asked_or_covered {s a r : Text} (h : s = a ++ r) :
    Asked rule s a ∨ ∃ b t f, a = b ++ t ∧ t ≠ [] ∧ Asked rule s b ∧ rule b.getLast? (t ++ r) = some f ∧
      t.length ≤ f.more := by
  cases hp : pending rule none 0 a r with
  | zero => exact .inl ⟨r, h, hp⟩
  | succ n =>
    rcases exists_of_pending hp with hz | ⟨b, t, f, rfl, hne, hb, hf, hmore⟩
    · omega
    · rw [behind_none] at hf
      exact .inr ⟨b, t, f, rfl, hne, ⟨t ++ r, by rw [h, List.append_assoc], hb⟩, hf, by omega⟩

theorem not_asked_of_covered {s b t r : Text} {f : Find α} (hs : s = b ++ (t ++ r)) (hb : Asked rule s b)
    (hf : rule b.getLast? (t ++ r) = some f) (hne : t ≠ []) (ht : t.length ≤ f.more) : ¬ Asked rule s (b ++ t) := by
  intro ha
  obtain ⟨u, hu, hzero⟩ := hb
  obtain ⟨v, hv, ha⟩ := ha
  obtain rfl := List.append_cancel_left (hs.symm.trans hu)
  obtain rfl := List.append_cancel_left (((List.append_assoc b t r).trans hs.symm).trans hv)
  rw [pending_append, hzero] at ha
  cases t with
  | nil => exact hne rfl
  | cons c t =>
    rw [List.length_cons] at ht
    simp only [List.cons_append, behind_none] at hf ha
    rw [pending, List.cons_append, hf] at ha
    simp only [pending_inside (show t.length ≤ f.more by omega)] at ha
    omega

/-- A cut of `c :: s` is in front of `c` or one of `s`. -/
theorem exists_cut_cons {c : Char} {s : Text} {Q : Text → Text → Prop} :
    (∃ a r, c :: s = a ++ r ∧ r ≠ [] ∧ Q a r) ↔ Q [] (c :: s) ∨ ∃ a r, s = a ++ r ∧ r ≠ [] ∧ Q (c :: a) r := by
  constructor
  · intro h
    obtain ⟨a, r, hs, hr, hq⟩ := h
    cases a with
    | nil =>
      rw [List.nil_append] at hs
      exact .inl (hs ▸ hq)
    | cons d a =>
      obtain ⟨rfl, hs'⟩ := List.cons.inj hs
      exact .inr ⟨a, r, hs', hr, hq⟩
  · intro h
    rcases h with hq | ⟨a, r, rfl, hr, hq⟩
    · exact ⟨[], c :: s, rfl, by simp, hq⟩
    · exact ⟨c :: a, r, rfl, hr, hq⟩

theorem mem_sweepFrom_iff {before : Option Char} {skip : Nat} {s : Text} {v : α} :
    v ∈ (sweepFrom rule before skip s).filterMap Piece.value? ↔
      ∃ a r, s = a ++ r ∧ r ≠ [] ∧ pending rule before skip a r = 0 ∧ ∃ m, rule (behind before a) r = some ⟨m, v⟩ := by
  induction s generalizing before skip with
  | nil =>
    simp only [sweepFrom, List.filterMap_nil, List.not_mem_nil, false_iff]
    intro h
    obtain ⟨a, r, hs, hr, -⟩ := h
    exact hr (List.append_eq_nil_iff.1 hs.symm).2
  | cons c s ih =>
    rw [exists_cut_cons]
    cases skip with
    | succ k => simp [sweepFrom, pending, ih]
    | zero =>
      have hrest : ∀ k, (∀ a r, s = a ++ r → pending rule before 0 (c :: a) r = pending rule (some c) k a r) →
          (v ∈ (sweepFrom rule (some c) k s).filterMap Piece.value? ↔
            ∃ a r, s = a ++ r ∧ r ≠ [] ∧ pending rule before 0 (c :: a) r = 0 ∧
              ∃ m, rule (behind before (c :: a)) r = some ⟨m, v⟩) := by
        intro k hp
        rw [ih]
        refine exists_congr fun a => exists_congr fun r => and_congr_right fun hs => ?_
        rw [hp a r hs, behind_cons]
      cases hg : rule before (c :: s) with
      | none =>
        rw [← hrest 0 fun a r hs => by rw [hs] at hg; simp [pending, hg]]
        simp [sweepFrom, hg, Piece.value?]
      | some g =>
        rw [← hrest g.more fun a r hs => by rw [hs] at hg; simp [pending, hg]]
        simp only [sweepFrom, hg, List.filterMap_cons, Piece.value?, List.mem_cons]
        refine or_congr_left ⟨?_, ?_⟩
        · intro h
          exact ⟨rfl, g.more, by rw [behind_nil, hg, h]⟩
        · intro h
          obtain ⟨-, m, h⟩ := h
          rw [behind_nil, hg] at h
          rw [Option.some.inj h]

/-- A sweep finds what its rule finds where it is asked. -/
theorem mem_finds_iff {s : Text} {v : α} :
    v ∈ finds rule s ↔ ∃ a r, s = a ++ r ∧ r ≠ [] ∧ Asked rule s a ∧ ∃ m, rule a.getLast? r = some ⟨m, v⟩ := by
  rw [finds, sweep, mem_sweepFrom_iff]
  refine exists_congr fun a => exists_congr fun r => and_congr_right fun hs => ?_
  rw [asked_iff_pending hs, behind_none]

end Replay.Text
