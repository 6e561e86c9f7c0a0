/-
  Replay.Proofs.TestFile.Strategies — when the two strategies cut a test file alike.

  A cut is told by two places, and a source has at most one cut for them (`cut_of_places`),
  so the strategies agree if they agree on the places. Any cut that leaves out white space
  only is the literal one exactly if its head ends with a brace, its gap is one line feed
  and no closing stands in its tail: a closing that begins in front of the tail is the one
  that was cut. The structural cut is of that kind.

  They agree on a file as it is usually laid out, where the last close stands on the line
  behind another brace and no brace comes after it. A closing in a comment behind the last
  close parts them.

  Proved here: `cut_of_places`, `literal_iff_of_clean`, `strategies_agree_iff`.
-/

import Replay.Proofs.TestFile.Filling

namespace Replay.TestFile

open Text

/-! ## Places tell the cut -/

theorem append_inj_of_bytes {a b a' b' : Text} (h : a ++ b = a' ++ b') (hb : bytes a = bytes a') :
    a = a' ∧ b = b' := by
  have ha : some a = some a' := by rw [← upTo?_bytes a b, h, hb, upTo?_bytes]
  obtain rfl := Option.some.inj ha
  exact ⟨rfl, List.append_cancel_left h⟩

theorem cut_of_places {c c' : Cut} (h : c.head ++ c.gap ++ c.tail = c'.head ++ c'.gap ++ c'.tail)
    (hhead : c.headEnd = c'.headEnd) (htail : c.tailStart = c'.tailStart) : c = c' := by
  rw [Cut.headEnd, Cut.headEnd] at hhead
  rw [Cut.tailStart, Cut.tailStart, ← bytes_append, ← bytes_append] at htail
  obtain ⟨hfront, htail⟩ := append_inj_of_bytes h htail
  obtain ⟨hhead, hgap⟩ := append_inj_of_bytes hfront hhead
  cases c
  cases c'
  simp_all

/-- The other strategy finds the same places exactly if it finds the same cut. -/
theorem places_iff_find {strategy other : Strategy} {source : Text} {c : Cut}
    (h : Cut.find strategy source = some c) :
    places other source = some (c.headEnd, c.tailStart) ↔ Cut.find other source = some c := by
  rw [places_eq, Option.map_eq_some_iff]
  constructor
  · intro hp
    obtain ⟨c', hc', hplaces⟩ := hp
    obtain ⟨hhead, htail⟩ := Prod.mk.inj hplaces
    have hparts := (Cut.find_append hc').trans (Cut.find_append h).symm
    rw [hc', cut_of_places hparts hhead htail]
  · intro hc
    exact ⟨c, hc, rfl⟩

/-! ## The literal cut among others -/

theorem literal_iff_of_clean {c : Cut} (h : c.Clean) :
    Cut.find .literal (c.head ++ c.gap ++ c.tail) = some c ↔
      ['}'] <:+ c.head ∧ c.gap = ['\n'] ∧ ¬ Cut.closing <:+: c.tail := by
  constructor
  · intro hc
    obtain ⟨a, r, -, hlast, rfl⟩ := exists_last_of_literal hc
    exact ⟨List.suffix_append a _, rfl, fun hin => hlast (List.infix_cons hin)⟩
  · intro hc
    obtain ⟨r, hr⟩ := h.closes
    obtain ⟨head, gap, tail⟩ := c
    obtain ⟨⟨a, rfl⟩, rfl, hlast⟩ := hc
    obtain rfl : '}' :: r = tail := hr
    -- a closing in front of the tail would have to begin with the line feed
    have hfeed : ¬ Cut.closing <:+: '\n' :: '}' :: r := fun hin =>
      hlast ((infix_skip (a := ['\n']) (by decide)).1 hin)
    have hsource : a ++ ['}'] ++ ['\n'] ++ '}' :: r = a ++ (Cut.closing ++ r) := by simp [Cut.closing]
    rw [hsource, literal_of_last hfeed]

theorem not_closing_of_no_brace {r : Text} (h : ∀ c ∈ r, isBrace c = false) : ¬ Cut.closing <:+: '}' :: r := by
  intro hin
  have hnone : r.count '}' = 0 := List.count_eq_zero.2 fun hm => by simpa [isBrace] using h _ hm
  have hle := hin.sublist.count_le '}'
  rw [List.count_cons_self, hnone] at hle
  exact absurd hle (by decide)

theorem structural_of_closed_line {source a r : Text} (h : lastClose source = some (a ++ ['}', '\n'], '}' :: r)) :
    Cut.find .structural source = some ⟨a ++ ['}'], ['\n'], '}' :: r⟩ := by
  have hfeed : ∀ d ∈ ['\n'], isSpace d = true := List.all_eq_true.1 (by decide)
  have hfront : a ++ ['}', '\n'] = a ++ ['}'] ++ ['\n'] := by simp
  rw [hfront] at h
  refine Option.map_eq_some_iff.2 ⟨_, h, ?_⟩
  simp only [trimEnd_run (by decide : isSpace '}' = false) hfeed, List.drop_left]

/-! ## Agreement -/

/-- Where the structural strategy cuts, the literal one cuts at the same places exactly if the head ends with a brace,
    one line feed is left out and the tail holds no closing. Then every splice comes out the same. It is so where the
    last close is behind a brace and a line feed and in front of a text without braces. -/
theorem strategies_agree_iff {source : Text} {headEnd tailStart : Nat}
    (h : places .structural source = some (headEnd, tailStart)) :
    (∃ head gap tail, source = head ++ gap ++ tail ∧ bytes head = headEnd ∧ bytes (head ++ gap) = tailStart ∧
        (places .literal source = some (headEnd, tailStart) ↔
          ['}'] <:+ head ∧ gap = ['\n'] ∧ ¬ Cut.closing <:+: tail)) ∧
      (places .literal source = some (headEnd, tailStart) → ∀ stem block,
        ∃ r, splice stem .literal source block = some r ∧ splice stem .structural source block = some r) ∧
      ∀ a r, lastClose source = some (a ++ ['}', '\n'], '}' :: r) → (∀ c ∈ r, isBrace c = false) →
        places .literal source = some (headEnd, tailStart) := by
  rw [places_eq, Option.map_eq_some_iff] at h
  obtain ⟨c, hc, hplaces⟩ := h
  obtain ⟨rfl, rfl⟩ := Prod.mk.inj hplaces
  have hparts := Cut.find_append hc
  have hiff : Cut.find .literal source = some c ↔ ['}'] <:+ c.head ∧ c.gap = ['\n'] ∧ ¬ Cut.closing <:+: c.tail := by
    rw [← hparts]
    exact literal_iff_of_clean (clean_of_structural hc)
  rw [places_iff_find hc]
  refine ⟨⟨c.head, c.gap, c.tail, hparts.symm, rfl, bytes_append _ _, hiff⟩, ?_, ?_⟩
  · intro hl stem block
    exact ⟨_, splice_of_find hl ⟨stem, block⟩, splice_of_find hc ⟨stem, block⟩⟩
  · intro a r hlast hr
    obtain rfl := Option.some.inj (hc.symm.trans (structural_of_closed_line hlast))
    exact hiff.2 ⟨List.suffix_append a _, rfl, not_closing_of_no_brace hr⟩

/-- Two closings overlap, and the last counts. -/
theorem strategies_agree_iff_of_overlap :
    places .structural "A \x7b\x7b\x7b\n\x7d\n\x7d\n\x7d".toList = some (9, 10) ∧
      (∃ head gap tail, "A \x7b\x7b\x7b\n\x7d\n\x7d\n\x7d".toList = head ++ gap ++ tail ∧ bytes head = 9 ∧
          bytes (head ++ gap) = 10 ∧
          (places .literal "A \x7b\x7b\x7b\n\x7d\n\x7d\n\x7d".toList = some (9, 10) ↔
            ['}'] <:+ head ∧ gap = ['\n'] ∧ ¬ Cut.closing <:+: tail)) ∧
        (places .literal "A \x7b\x7b\x7b\n\x7d\n\x7d\n\x7d".toList = some (9, 10) → ∀ stem block,
          ∃ r, splice stem .literal "A \x7b\x7b\x7b\n\x7d\n\x7d\n\x7d".toList block = some r ∧
            splice stem .structural "A \x7b\x7b\x7b\n\x7d\n\x7d\n\x7d".toList block = some r) ∧
        ∀ a r, lastClose "A \x7b\x7b\x7b\n\x7d\n\x7d\n\x7d".toList = some (a ++ ['}', '\n'], '}' :: r) →
          (∀ c ∈ r, isBrace c = false) → places .literal "A \x7b\x7b\x7b\n\x7d\n\x7d\n\x7d".toList = some (9, 10) := by
  have hplaces : places .structural "A \x7b\x7b\x7b\n\x7d\n\x7d\n\x7d".toList = some (9, 10) := by decide
  exact ⟨hplaces, strategies_agree_iff hplaces⟩

/-- A closing in a comment behind the last close is the literal one. -/
example : places .structural "A \x7b \x7b\n\x7d\n\x7d/*\x7d\n\x7d*/".toList = some (7, 8) ∧
    places .literal "A \x7b \x7b\n\x7d\n\x7d/*\x7d\n\x7d*/".toList = some (12, 13) := by
  decide

end Replay.TestFile
