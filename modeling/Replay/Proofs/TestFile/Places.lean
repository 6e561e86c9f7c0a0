/-
  Replay.Proofs.TestFile.Places — where a test file is cut, in bytes.

  A cut is looked for in the bytes and told by two places: the head ends at the first, the
  tail starts at the second. The literal strategy finds the last closing there. The
  structural one reads the braces there and takes the white space off the text in front of
  the last close, which it has only if that place is not inside a character. It never is: a
  character of several bytes has none that is a brace or stands in a mark, so the bytes are
  cut where the characters are.

  A splice leaves out white space and nothing else. No keyword holds white space or a
  brace, so none is broken and none is made at a seam, and the new function adds its own
  keyword to those of its stem and its block.

  Proved here: `cutLast_octets`, `lastClose_octets`, `places_eq`, `keywordCount_splice`,
  `splice_loses_nothing`.
-/

import Replay.Proofs.TestFile.Balance
import Replay.Proofs.TestFile.RunNames
import Replay.Proofs.TestFile.StructuralRuns

namespace Replay.TestFile

open Text

/-! ## Places -/

/-- The text in the first `n` bytes; `none` if these end inside a character or behind the text. -/
def upTo? : Nat → Text → Option Text
  | 0, _ => some []
  | _ + 1, [] => none
  | n + 1, c :: s => if c.utf8Size ≤ n + 1 then (upTo? (n + 1 - c.utf8Size) s).map (c :: ·) else none

/-- The bytes in front of the new function, and those of the source in front of its tail. -/
def places : Strategy → Text → Option (Nat × Nat)
  | .literal, source =>
    (cutLast Cut.closing (octets source)).map fun p => (p.1.length + 1, p.1.length + Cut.closing.length - 1)
  | .structural, source => do
    let close ← (lastClose (octets source)).map fun p => p.1.length
    let front ← upTo? close source
    return (bytes (trimEnd front), close)

theorem upTo?_bytes (a b : Text) : upTo? (bytes a) (a ++ b) = some a := by
  induction a with
  | nil => rw [bytes_nil, upTo?]
  | cons c a ih =>
    have hc := c.utf8Size_pos
    obtain ⟨n, hn⟩ := Nat.exists_eq_succ_of_ne_zero (show bytes (c :: a) ≠ 0 by rw [bytes]; omega)
    have hrest : n + 1 - c.utf8Size = bytes a := by
      rw [bytes] at hn
      omega
    have hle : c.utf8Size ≤ n + 1 := by
      rw [bytes] at hn
      omega
    rw [hn, List.cons_append, upTo?, if_pos hle, hrest, ih]
    rfl

/-! ## Bytes are cut where characters are -/

theorem prefix_octets_iff {mark s : Text} (h : ∀ c ∈ mark, c.toNat < 128) : mark <+: octets s ↔ mark <+: s := by
  induction mark generalizing s with
  | nil => simp
  | cons q mark ih =>
    obtain ⟨hq, hmark⟩ := List.forall_mem_cons.1 h
    cases s with
    | nil => rfl
    | cons c s =>
      rcases Nat.lt_or_ge c.toNat 128 with hc | hc
      · rw [octets_cons_ascii hc, List.cons_prefix_cons, List.cons_prefix_cons, ih hmark]
      · have hne : q ≠ c := (ne_of_high hc hq).symm
        obtain ⟨d, ds, hd⟩ := List.exists_cons_of_ne_nil
          (show (String.utf8EncodeChar c).map octet ≠ [] by simp [String.utf8EncodeChar_ne_nil])
        have hqd : q ≠ d := (ne_of_high (encode_high hc d (by rw [hd]; exact List.mem_cons_self)) hq).symm
        rw [octets_cons, hd]
        simp [hne, hqd]

theorem cutLast_octets {q : Char} {mark : Text} (h : ∀ c ∈ q :: mark, c.toNat < 128) (s : Text) :
    cutLast (q :: mark) (octets s) = (cutLast (q :: mark) s).map fun p => (octets p.1, octets p.2) := by
  have hq := h q List.mem_cons_self
  induction s with
  | nil => rfl
  | cons c s ih =>
    rcases Nat.lt_or_ge c.toNat 128 with hc | hc
    · have hcut := octets_cons_ascii hc
      have hprefix : (q :: mark).isPrefixOf (c :: octets s) = (q :: mark).isPrefixOf (c :: s) := by
        rw [Bool.eq_iff_iff, List.isPrefixOf_iff_prefix, List.isPrefixOf_iff_prefix, ← hcut, prefix_octets_iff h]
      rw [hcut, cutLast, cutLast, ih, hprefix]
      cases cutLast (q :: mark) s with
      | some p => simp [hcut]
      | none => cases (q :: mark).isPrefixOf (c :: s) <;> simp [hcut]
    · have hbytes : q ∉ (String.utf8EncodeChar c).map octet := fun hm => ne_of_high (encode_high hc q hm) hq rfl
      have hchar : q ∉ [c] := by simpa using (ne_of_high hc hq).symm
      have hskip : cutLast (q :: mark) (c :: s) = (cutLast (q :: mark) s).map fun p => ([c] ++ p.1, p.2) :=
        cutLast_skip hchar s
      rw [octets_cons, cutLast_skip hbytes, ih, hskip, Option.map_map, Option.map_map]
      rfl

theorem lastClose_octets (s : Text) :
    lastClose (octets s) = (lastClose s).map fun p => (octets p.1, octets p.2) := by
  rw [lastClose, lastClose, lastCloseFrom_octets (m := .code) trivial]
  rcases lastCloseFrom .code 0 s with _ | _ | p <;> rfl

theorem bytes_trimEnd_add (a : Text) : bytes (trimEnd a) + bytes (a.drop (trimEnd a).length) = bytes a := by
  rw [← bytes_append, trimEnd_append_drop]

/-- The places found in the bytes are those of the cut. -/
theorem places_eq (strategy : Strategy) (source : Text) :
    places strategy source = (Cut.find strategy source).map fun c => (c.headEnd, c.tailStart) := by
  cases strategy with
  | literal =>
    have hascii : ∀ c ∈ Cut.closing, c.toNat < 128 := by simp [Cut.closing]
    rw [places, Cut.closing, cutLast_octets hascii, Cut.find, Cut.literal, Cut.closing, Option.map_map, Option.map_map]
    refine congrArg (Option.map · _) (funext fun p => ?_)
    have hbrace : bytes ['}'] = 1 := rfl
    have hfeed : bytes ['\n'] = 1 := rfl
    simp only [Function.comp, Cut.headEnd, Cut.tailStart, length_octets, bytes_append, hbrace, hfeed]
    rfl
  | structural =>
    rw [places, lastClose_octets, Cut.find, Cut.structural]
    cases hlast : lastClose source with
    | none => rfl
    | some p =>
      obtain ⟨a, b⟩ := p
      have hfront : upTo? (bytes a) source = some a := by rw [← lastClose_append hlast, upTo?_bytes]
      simp [hfront, Cut.headEnd, Cut.tailStart, bytes_trimEnd_add, length_octets]

/-! ## Splices -/

theorem clean_of_find {strategy : Strategy} {source : Text} {c : Cut} (h : Cut.find strategy source = some c) :
    c.Clean := by
  cases strategy with
  | literal => exact clean_of_literal h
  | structural => exact clean_of_structural h

theorem keywordCount_numbered (stem : Text) (k : Nat) : keywordCount (numbered stem k) = keywordCount stem :=
  keywordCount_append_free (fun _ hc => run_not_mem (p := isNameStart) (List.all_eq_true.1 (by decide))
    (not_isNameStart_of_mem_decimal hc)) stem

theorem keywordCount_body (b : Block) : keywordCount b.body = keywordCount b.text := by
  rw [Block.body]
  split
  · rfl
  · exact keywordCount_append_free (List.forall_mem_singleton.2 (by decide)) b.text

/-- A splice adds one keyword to those of the source, the stem and the block. -/
theorem keywordCount_splice {stem : Text} {strategy : Strategy} {source : Text} {block : Block} {r : Spliced}
    (h : splice stem strategy source block = some r) :
    keywordCount r.source = keywordCount source + 1 + keywordCount stem + keywordCount block.text := by
  obtain ⟨c, hc, rfl⟩ := Option.map_eq_some_iff.1 h
  rw [keywordCount_fill (clean_of_find hc), Cut.find_append hc, keywordCount_inside, nextName, keywordCount_numbered,
    keywordCount_body]
  omega

/-- Places are in order, in front of the end and between characters, with white space between them and a closing brace
    behind. A splice there succeeds and keeps all that is in front of the first and behind the second: but for white
    space that is all of the source. -/
theorem splice_loses_nothing {strategy : Strategy} {source : Text} {headEnd tailStart : Nat}
    (h : places strategy source = some (headEnd, tailStart)) (stem : Text) (block : Block) :
    headEnd ≤ tailStart ∧ tailStart < bytes source ∧
      ∃ head gap tail r, source = head ++ gap ++ tail ∧ bytes head = headEnd ∧ bytes (head ++ gap) = tailStart ∧
        (∀ c ∈ gap, isSpace c = true) ∧ tail.head? = some '}' ∧
        splice stem strategy source block = some r ∧ head <+: r.source ∧ tail <:+ r.source ∧
        r.source = head ++ ('\n' :: '\n' :: function r.name block.body) ++ tail ∧
        source.filter (!isSpace ·) = head.filter (!isSpace ·) ++ tail.filter (!isSpace ·) ∧
        keywordCount r.source = keywordCount source + 1 + keywordCount stem + keywordCount block.text := by
  rw [places_eq, Option.map_eq_some_iff] at h
  obtain ⟨c, hc, hplaces⟩ := h
  obtain ⟨rfl, rfl⟩ := Prod.mk.inj hplaces
  have hparts := Cut.find_append hc
  obtain ⟨b, hb⟩ := (clean_of_find hc).closes
  have hspaces := (clean_of_find hc).spaces
  have hsplice := splice_of_find hc ⟨stem, block⟩
  have hbytes : bytes source = c.tailStart + bytes c.tail := by
    rw [← hparts, bytes_append, bytes_append, Cut.tailStart]
  have hbrace : 0 < bytes c.tail := by
    rw [← hb, bytes_append]
    exact Nat.add_pos_left (by decide) _
  have hgap : c.gap.filter (!isSpace ·) = [] := by
    rw [List.filter_eq_nil_iff]
    intro d hd
    simp [hspaces d hd]
  have hsource : ∀ f : Text, c.fill f = c.head ++ ('\n' :: '\n' :: f) ++ c.tail := fun _ => rfl
  refine ⟨Nat.le_add_right _ _, by omega, c.head, c.gap, c.tail, _, hparts.symm, rfl, bytes_append _ _, hspaces,
    by rw [← hb]; rfl, hsplice, ?_, ?_, hsource _, ?_, keywordCount_splice hsplice⟩
  · rw [hsource, List.append_assoc]
    exact List.prefix_append _ _
  · rw [hsource]
    exact List.suffix_append _ _
  · rw [← hparts, List.filter_append, List.filter_append, hgap, List.append_nil]

/-- Of a character behind a backslash only the first byte is taken out of the reading, and a brace in a string closes
    nothing. -/
theorem splice_loses_nothing_of_escape :
    places .structural "C \x7b s(\"\\é\x7d\"); \x7d".toList = some (14, 15) ∧ 14 ≤ 15 ∧
      15 < bytes "C \x7b s(\"\\é\x7d\"); \x7d".toList ∧
      ∃ head gap tail r, "C \x7b s(\"\\é\x7d\"); \x7d".toList = head ++ gap ++ tail ∧ bytes head = 14 ∧
        bytes (head ++ gap) = 15 ∧ (∀ c ∈ gap, isSpace c = true) ∧ tail.head? = some '}' ∧
        splice "test_".toList .structural "C \x7b s(\"\\é\x7d\"); \x7d".toList ⟨"f(1);".toList⟩ = some r ∧
        head <+: r.source ∧ tail <:+ r.source ∧
        r.source = head ++ ('\n' :: '\n' :: function r.name (Block.body ⟨"f(1);".toList⟩)) ++ tail ∧
        "C \x7b s(\"\\é\x7d\"); \x7d".toList.filter (!isSpace ·) =
          head.filter (!isSpace ·) ++ tail.filter (!isSpace ·) ∧
        keywordCount r.source = keywordCount "C \x7b s(\"\\é\x7d\"); \x7d".toList + 1 +
          keywordCount "test_".toList + keywordCount "f(1);".toList := by
  have hplaces : places .structural "C \x7b s(\"\\é\x7d\"); \x7d".toList = some (14, 15) := by decide
  exact ⟨hplaces, splice_loses_nothing hplaces "test_".toList ⟨"f(1);".toList⟩⟩

end Replay.TestFile
