/-
  Replay.Proofs.Trace.Settled — what the pipeline leaves alone in its own output.

  The last four passes settle a line: whatever they look for is gone from it, and no later
  one of them brings it back. So they change nothing in a block. The first two need not
  find a block settled. A wait mark can be made of the two halves around a removed one, a
  call with two delays loses one delay only, and an address typed in the place of a call's
  name gives a call to a delay that had none. A block goes through the pipeline unchanged
  exactly if neither of the first two passes finds anything in it.

  Proved here: `transform_settles` (the last four passes, and when all six), and from the
  lines after the second pass whether two runs are one (`transform_twice_iff`).
-/

import Replay.Proofs.Trace.Lines

namespace Replay.Trace

open Text Pass

/-- Nothing is left in a line for the last four passes. -/
structure Settled (l : Text) : Prop where
  dated : ¬ Delay l
  ended : ¬ OpenStatement l
  typed : ¬ BareAddress l
  indented : ¬ Shallow l

theorem settled_finish (l : Text) : Settled (finish l) where
  dated := by
    intro h
    exact not_delay_materialize l (delay_terminate.1 (delay_type (delay_renormalize.1 h)))
  ended := by
    intro h
    exact not_openStatement_terminate _ (openStatement_type (openStatement_renormalize.1 h))
  typed := not_bareAddress_renormalize.2 (not_bareAddress_type _)
  indented := not_shallow_renormalize _

theorem Settled.finish_eq_self {l : Text} (h : Settled l) : finish l = l := by
  rw [finish, materialize_eq_self h.dated, terminate_eq_self h.ended, type_eq_self h.typed,
    renormalize_eq_self h.indented]

theorem settled_of_mem_lines {x l : Text} (h : l ∈ lines (transform x).text) : Settled l := by
  rw [transform_text, lines_finish] at h
  obtain ⟨u, -, rfl⟩ := List.mem_map.1 h
  exact settled_finish u

/-! ## What the first two passes find in a finished line -/

theorem marked_finish {l : Text} : Marked (finish l) ↔ ¬ Delay l ∧ Marked l :=
  marked_renormalize.trans (marked_type.trans (marked_terminate.trans marked_materialize))

theorem delayedCall_finish {l : Text} : DelayedCall (finish l) ↔ ¬ Delay l ∧ (DelayedCall l ∨ AddressCall l) := by
  rw [finish, delayedCall_renormalize, delayedCall_type, delayedCall_terminate, addressCall_terminate,
    delayedCall_materialize, addressCall_materialize, ← and_or_left]

/-! ## Blocks -/

/-- A text of settled lines stays as it is exactly if the first two rules find nothing. -/
theorem transform_eq_self_iff {b : Text} (hb : ∀ l ∈ lines b, Settled l) :
    (transform b).text = b ↔ ∀ l ∈ lines b, ¬ Marked l ∧ ¬ DelayedCall l := by
  have hlines : (transform b).text = b ↔ (lines b).flatMap statements = lines b := by
    rw [← lines_transform]
    exact ⟨congrArg lines, eq_of_lines⟩
  rw [hlines, flatMap_eq_self_iff statements_ne_nil]
  refine forall₂_congr fun l hl => ?_
  exact statements_eq_self_iff (not_mem_of_mem_lines hl) (hb l hl).finish_eq_self

/-- The last four passes leave a block as it is, and with it the whole pipeline exactly if
    it holds no wait mark and no call with a delay. -/
theorem transform_settles (x : Text) :
    (∀ p ∈ [Pass.warps, .ends, .addresses, .depths], p.apply (transform x).text = (transform x).text) ∧
      (∀ l ∈ lines (transform x).text, ¬ Delay l ∧ ¬ OpenStatement l ∧ ¬ BareAddress l ∧ ¬ Shallow l) ∧
      (transform (transform x).text = transform x ↔
        ¬ waitMark <:+: (transform x).text ∧ ∀ l ∈ lines (transform x).text, ¬ DelayedCall l) := by
  have hs : ∀ l ∈ lines (transform x).text, Settled l := fun l hl => settled_of_mem_lines hl
  refine ⟨?_, fun l hl => ⟨(hs l hl).dated, (hs l hl).ended, (hs l hl).typed, (hs l hl).indented⟩, ?_⟩
  · simp only [List.forall_mem_cons, List.not_mem_nil, false_implies, implies_true, and_true]
    refine ⟨?_, ?_, ?_, ?_⟩
    · exact apply_eq_self fun l hl => materialize_eq_self (hs l hl).dated
    · exact apply_eq_self fun l hl => terminate_eq_self (hs l hl).ended
    · exact apply_eq_self fun l hl => type_eq_self (hs l hl).typed
    · exact apply_eq_self fun l hl => renormalize_eq_self (hs l hl).indented
  · have hmark := infix_iff_mem_lines (s := (transform x).text) waitMark_ne_nil (by decide)
    rw [text_inj, transform_eq_self_iff hs, hmark]
    constructor
    · intro h
      exact ⟨fun ⟨l, hl, hm⟩ => (h l hl).1 hm, fun l hl => (h l hl).2⟩
    · intro ⟨hm, hd⟩ l hl
      exact ⟨fun h => hm ⟨l, hl, h⟩, hd l hl⟩

/-- Two runs are one run exactly if every line that the first two passes leave is a delay,
    or holds no wait mark, no call with a delay and no address in the place of its name. -/
theorem transform_twice_iff (x : Text) :
    transform (transform x).text = transform x ↔
      ∀ u ∈ lines (Pass.delays.apply (Pass.waits.apply x)),
        Delay u ∨ ¬ Marked u ∧ ¬ DelayedCall u ∧ ¬ AddressCall u := by
  have hlines : lines (transform x).text = (lines (Pass.delays.apply (Pass.waits.apply x))).map finish := by
    rw [transform_text, lines_finish]
  have hs : ∀ l ∈ lines (transform x).text, Settled l := fun l hl => settled_of_mem_lines hl
  rw [text_inj, transform_eq_self_iff hs, hlines, List.forall_mem_map]
  refine forall₂_congr fun u _ => ?_
  rw [marked_finish, delayedCall_finish]
  by_cases hd : Delay u
  · simp [hd]
  · simp [hd, not_or]

/-- Around a removed mark a new one closes up, and a second run removes it. -/
theorem a_mark_closes_up_around_a_mark :
    transform (transform "*wa*wait* it* ".toList).text ≠ transform "*wa*wait* it* ".toList := by
  decide

end Replay.Trace
