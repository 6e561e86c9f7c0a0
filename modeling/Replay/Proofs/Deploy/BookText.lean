/-
  Replay.Proofs.Deploy.BookText — an address book read back from its text.

  The text lays one member a line; the line feeds and the indentation are gaps, and gaps
  are skipped in front of a key, a value and the closing brace. What a name or an address
  contains cannot be taken for layout, because a string ends at its own closing quote. So
  each member is read in turn, and the text says which book it is the text of. The empty
  book, a bare pair of braces, is no exception.

  Proved here: `members_prettyRest`, `parse_pretty`, `parse_text`.
-/

import Replay.Deploy.Book
import Replay.Proofs.Json.RoundTrip

namespace Replay

namespace Json

open Text

/-- The member that a pair of names stands for. -/
def textMember (m : Text × Text) : Text × Value := (m.1, .string m.2)

theorem eq_of_textMember_eq {m m' : Text × Text} (h : textMember m = textMember m') : m = m' := by
  obtain ⟨hname, hvalue⟩ := Prod.mk.inj h
  exact Prod.ext hname (Value.string.inj hvalue)

theorem skipGap_indent (s : Text) : skipGap ('\n' :: ("    ".toList ++ s)) = skipGap s := by
  have hindent : "    ".toList = [' ', ' ', ' ', ' '] := rfl
  simp [skipGap, hindent, isGap]

/-- A member on its own line is read up to what follows it. -/
theorem members_prettyMember (room n : Nat) (first : Bool) (ms : List (Text × Value)) (m : Text × Text) {r : Text}
    (hr : EndsNumber r) :
    members string (takeMember room) (n + 1) first ms
        (if first then '\n' :: (prettyMember m ++ r) else ',' :: '\n' :: (prettyMember m ++ r)) =
      members string (takeMember room) n false (ms ++ [textMember m]) r := by
  have hkey : skipGap ('\n' :: (prettyMember m ++ r)) = stringText m.1 ++ ':' :: (' ' :: stringText m.2 ++ r) := by
    rw [prettyMember, List.append_assoc, List.append_assoc, skipGap_indent, skipGap_stringText]
    rfl
  have hvalue : Reads room (' ' :: stringText m.2) (.string m.2) := reads_gap (reads_stringText room m.2) (by decide)
  exact members_member first ms hkey (hvalue r hr)

theorem endsNumber_prettyRest (ms : List (Text × Text)) (r : Text) : EndsNumber (prettyRest ms ++ r) := by
  cases ms with
  | nil => exact endsNumber_cons (by decide) _
  | cons m ms => exact endsNumber_cons (by decide) _

theorem length_lt_prettyRest (ms : List (Text × Text)) : ms.length < (prettyRest ms).length := by
  induction ms with
  | nil => decide
  | cons m ms ih =>
    simp only [prettyRest, List.length_cons, List.cons_append, List.length_append]
    omega

theorem members_prettyRest {room n : Nat} {ms : List (Text × Text)} (hn : ms.length < n) (before : List (Text × Value))
    (r : Text) :
    members string (takeMember room) n false before (prettyRest ms ++ r) = .ok (before ++ ms.map textMember, r) := by
  induction ms generalizing n before with
  | nil =>
    obtain ⟨n, rfl⟩ := Nat.exists_eq_add_one.2 (Nat.zero_lt_of_lt hn)
    rw [List.map_nil, List.append_nil]
    exact members_stop before rfl
  | cons m ms ih =>
    obtain ⟨n, rfl⟩ := Nat.exists_eq_add_one.2 (Nat.zero_lt_of_lt hn)
    have hmember := members_prettyMember room n false before m (endsNumber_prettyRest ms r)
    rw [ih (Nat.lt_of_succ_lt_succ hn), List.append_assoc] at hmember
    simpa [prettyRest] using hmember

/-- A mapping is read back member by member, in its order. -/
theorem reads_pretty (room : Nat) (ms : List (Text × Text)) :
    Reads (room + 1) (pretty ms) (.object (ms.map textMember)) := by
  intro r _
  cases ms with
  | nil => rfl
  | cons m ms =>
    have hn : ms.length < ('\n' :: (prettyMember m ++ (prettyRest ms ++ r))).length := by
      have hlong := length_lt_prettyRest ms
      simp only [List.length_cons, List.length_append]
      omega
    have hall : allMembers string (takeMember room) [] ('\n' :: (prettyMember m ++ (prettyRest ms ++ r))) =
        .ok ((m :: ms).map textMember, r) := by
      refine (members_prettyMember room _ true [] m (endsNumber_prettyRest ms r)).trans ?_
      exact members_prettyRest hn [textMember m] r
    have htext : pretty (m :: ms) ++ r = '{' :: '\n' :: (prettyMember m ++ (prettyRest ms ++ r)) := by
      simp [pretty]
    rw [htext]
    exact value_object hall

theorem parse_pretty (ms : List (Text × Text)) : parse (pretty ms) = .ok (.object (ms.map textMember)) :=
  parse_of_reads (reads_pretty (maxDepth - 1) ms)

end Json

namespace Deploy

/-- A book is read back from its text, entry by entry in its order, so no other book has the same text. -/
theorem parse_text (b : Book) : Json.parse b.text = .ok (.object (b.entries.map fun e => (e.1, .string e.2))) ∧
    ∀ b' : Book, b'.text = b.text → b' = b := by
  have hread : ∀ b : Book, Json.parse b.text = .ok (.object (b.entries.map Json.textMember)) := fun b =>
    Json.parse_pretty b.entries
  refine ⟨hread b, ?_⟩
  intro b' h
  have hb := hread b'
  rw [h, hread b] at hb
  have hmembers := Json.Value.object.inj (Except.ok.inj hb)
  have hentries := (List.map_inj_right fun _ _ => Json.eq_of_textMember_eq).1 hmembers
  cases b
  cases b'
  exact congrArg Book.mk hentries.symm

end Deploy

end Replay
