/-
  Replay.Proofs.Json.RoundTrip — values read back from their text.

  A value is `Exact` if it holds no float and its whole numbers fit a word. The text of an
  exact value is read as that value and nothing else, whatever stands behind it, if there
  is room for its brackets (`Reads`). An item or a member leaves the reader in front of the
  comma or the bracket that follows it, so lists are read by one step for each part. No
  value begins with a closing bracket, so a first item is not taken for the end.

  Proved here: `items_item`, `members_member`, `value_compact`, `parse_compact`,
  `compact_injective`.
-/

import Replay.Json.Reader
import Replay.Proofs.Json.Tokens

namespace Replay.Json

open Text

/-- Without floats, and with whole numbers of a word only. -/
inductive Value.Exact : Value → Prop
  | null : Exact .null
  | bool (b : Bool) : Exact (.bool b)
  | integer {i : Int} : -0x8000000000000000 ≤ i → i < 0x10000000000000000 → Exact (.number (.integer i))
  | string (s : Text) : Exact (.string s)
  | array {vs : List Value} : (∀ v ∈ vs, v.Exact) → Exact (.array vs)
  | object {ms : List (Text × Value)} : (∀ m ∈ ms, m.2.Exact) → Exact (.object ms)

mutual

/-- How many brackets stand inside one another. -/
def Value.depth : Value → Nat
  | .array vs => depthItems vs + 1
  | .object ms => depthMembers ms + 1
  | _ => 0

def depthItems : List Value → Nat
  | [] => 0
  | v :: vs => max v.depth (depthItems vs)

def depthMembers : List (Text × Value) → Nat
  | [] => 0
  | (_, v) :: ms => max v.depth (depthMembers ms)

end

/-- Read as this value in front of anything that does not go on with a number. -/
def Reads (room : Nat) (t : Text) (v : Value) : Prop := ∀ r, EndsNumber r → value room (t ++ r) = .ok (v, r)

theorem depth_le_items {v : Value} {vs : List Value} (h : v ∈ vs) : v.depth ≤ depthItems vs := by
  induction vs with
  | nil => cases h
  | cons w vs ih =>
    rw [depthItems]
    rcases List.mem_cons.1 h with rfl | h
    · exact Nat.le_max_left _ _
    · exact Nat.le_trans (ih h) (Nat.le_max_right _ _)

theorem depth_le_members {m : Text × Value} {ms : List (Text × Value)} (h : m ∈ ms) : m.2.depth ≤ depthMembers ms := by
  induction ms with
  | nil => cases h
  | cons n ms ih =>
    rw [depthMembers]
    rcases List.mem_cons.1 h with rfl | h
    · exact Nat.le_max_left _ _
    · exact Nat.le_trans (ih h) (Nat.le_max_right _ _)

/-! ## Strings, numbers and gaps -/

theorem isGap_of_startsNumber {c : Char} (h : startsNumber c = true) : isGap c = false := by
  rw [Bool.eq_false_iff]
  intro hg
  simp only [isGap, Bool.or_eq_true, decide_eq_true_eq] at hg
  rcases hg with ((rfl | rfl) | rfl) | rfl
  all_goals exact absurd h (by decide)

theorem value_of_startsNumber {c : Char} (h : startsNumber c = true) (room : Nat) (s : Text) :
    value room (c :: s) = (number (c :: s) >>= fun p => .ok (.number p.1, p.2)) := by
  unfold value
  rw [skipGap_cons (isGap_of_startsNumber h)]
  split
  case h_1 heq => cases heq
  case h_8 heq =>
    obtain ⟨rfl, rfl⟩ := List.cons.inj heq
    rw [startsNumber] at h
    rw [if_pos h]
    rfl
  -- the letters, the quote and the brackets begin no number
  all_goals
    next heq =>
    obtain ⟨rfl, -⟩ := List.cons.inj heq
    exact absurd h (by decide)

theorem reads_integerText (room : Nat) {i : Int} (hlow : -0x8000000000000000 ≤ i) (hhigh : i < 0x10000000000000000) :
    Reads room (integerText i) (.number (.integer i)) := by
  intro r hr
  have hn := number_integerText hlow hhigh hr
  obtain ⟨c, t, hi, hc⟩ := integerText_head i
  rw [hi, List.cons_append] at hn ⊢
  rw [value_of_startsNumber hc, hn, ok_bind]

theorem reads_stringText (room : Nat) (s : Text) : Reads room (stringText s) (.string s) := by
  intro r _
  rw [stringText_append, value, skipGap_cons (by decide)]
  simp only [string_escaped, ok_bind]
  rfl

theorem reads_gap {room : Nat} {t : Text} {v : Value} (h : Reads room t v) {c : Char} (hc : isGap c = true) :
    Reads room (c :: t) v := by
  intro r hr
  have hs : skipGap (c :: t ++ r) = skipGap (t ++ r) := List.dropWhile_cons_of_pos hc
  have hv := h r hr
  unfold value at hv ⊢
  rw [hs, hv]

/-! ## Arrays -/

/-- What is read begins with no closing bracket, and may be read from its first character. -/
theorem exists_of_value {room : Nat} {s : Text} {p : Value × Text} (h : value room s = .ok p) :
    ∃ c t, skipGap s = c :: t ∧ c ≠ ']' ∧ value room (c :: t) = .ok p := by
  have hagain : value room (skipGap s) = value room s := by
    unfold value
    rw [skipGap_skipGap]
  cases hs : skipGap s with
  | nil =>
    unfold value at h
    rw [hs] at h
    cases h
  | cons c t =>
    refine ⟨c, t, rfl, ?_, by rw [← hs, hagain, h]⟩
    rintro rfl
    unfold value at h
    rw [hs] at h
    cases h

theorem items_stop (room n : Nat) (first : Bool) (r : Text) :
    items (value room) (n + 1) first (']' :: r) = .ok ([], r) := by
  simp only [items, nextItem, skipGap_cons (show isGap ']' = false by decide), ok_bind]
  rfl

/-- One item is read, the first as it stands and a further one behind its comma. -/
theorem items_item {room n : Nat} {s r : Text} {v : Value} (first : Bool) (h : value room s = .ok (v, r)) :
    items (value room) (n + 1) first (if first then s else ',' :: s) =
      (items (value room) n false r >>= fun p => .ok (v :: p.1, p.2)) := by
  obtain ⟨c, t, hs, hc, hv⟩ := exists_of_value h
  have hnext : nextItem first (if first then s else ',' :: s) = .ok (.more () (c :: t)) := by
    cases first with
    | true => simp [nextItem, hs]
    | false =>
      rw [if_neg (by decide), nextItem, skipGap_cons (by decide)]
      split
      · next heq => cases heq
      · next heq => exact absurd (List.cons.inj heq).1 (by decide)
      · next heq =>
        obtain ⟨rfl, rfl⟩ := List.cons.inj heq
        rw [if_neg (by decide), if_pos rfl, hs]
        split
        · next heq => cases heq
        · next heq => exact absurd (List.cons.inj heq).1 hc
        · rfl
  simp only [items, hnext, ok_bind, hv]
  rfl

theorem endsNumber_moreItems (vs : List Value) (r : Text) : EndsNumber (moreItems vs ++ r) := by
  cases vs with
  | nil => exact endsNumber_cons (by decide) _
  | cons v vs =>
    rw [moreItems]
    exact endsNumber_cons (by decide) _

theorem length_lt_moreItems (vs : List Value) : vs.length < (moreItems vs).length := by
  induction vs with
  | nil => decide
  | cons v vs ih =>
    simp only [moreItems, List.length_cons, List.cons_append, List.length_append]
    omega

theorem items_moreItems {room n : Nat} {vs : List Value} (h : ∀ v ∈ vs, Reads room (compact v) v) (hn : vs.length < n)
    (r : Text) : items (value room) n false (moreItems vs ++ r) = .ok (vs, r) := by
  induction vs generalizing n with
  | nil =>
    obtain ⟨n, rfl⟩ := Nat.exists_eq_add_one.2 (Nat.zero_lt_of_lt hn)
    exact items_stop room n false r
  | cons v vs ih =>
    obtain ⟨n, rfl⟩ := Nat.exists_eq_add_one.2 (Nat.zero_lt_of_lt hn)
    obtain ⟨hv, hvs⟩ := List.forall_mem_cons.1 h
    have hitem := items_item (n := n) false (hv _ (endsNumber_moreItems vs r))
    rw [ih hvs (Nat.lt_of_succ_lt_succ hn), ok_bind] at hitem
    rw [moreItems, List.append_assoc]
    exact hitem

theorem reads_array {room : Nat} {vs : List Value} (h : ∀ v ∈ vs, Reads room (compact v) v) :
    Reads (room + 1) (compact (.array vs)) (.array vs) := by
  intro r _
  cases vs with
  | nil => rfl
  | cons v vs =>
    obtain ⟨hv, hvs⟩ := List.forall_mem_cons.1 h
    have hn : vs.length < (compact v ++ (moreItems vs ++ r)).length := by
      have hlong := length_lt_moreItems vs
      simp only [List.length_append]
      omega
    have hall : allItems (value room) (compact v ++ (moreItems vs ++ r)) = .ok (v :: vs, r) := by
      refine (items_item true (hv _ (endsNumber_moreItems vs r))).trans ?_
      rw [items_moreItems hvs hn, ok_bind]
    rw [compact, List.append_assoc, List.cons_append, value, skipGap_cons (by decide)]
    simp only [hall, ok_bind]
    rfl

/-! ## Objects -/

/-- How a member is taken into the members before it. -/
def takeMember (room : Nat) (ms : List (Text × Value)) (k r : Text) : Except Fault (List (Text × Value) × Text) := do
  let (v, r) ← value room (← colon r)
  return (ms ++ [(k, v)], r)

theorem value_object {room : Nat} {s r : Text} {ms : List (Text × Value)}
    (h : allMembers string (takeMember room) [] s = .ok (ms, r)) : value (room + 1) ('{' :: s) = .ok (.object ms, r) := by
  rw [value, skipGap_cons (by decide)]
  show (allMembers string (takeMember room) [] s >>= _) = _
  rw [h, ok_bind]
  rfl

theorem members_stop {room n : Nat} {first : Bool} {s r : Text} (ms : List (Text × Value)) (h : skipGap s = '}' :: r) :
    members string (takeMember room) (n + 1) first ms s = .ok (ms, r) := by
  simp only [members, nextKey, h, ok_bind]
  rfl

theorem keyAt_string (k t : Text) : keyAt string (stringText k ++ t) = .ok (.more k t) := by
  rw [stringText_append]
  simp only [keyAt, string_escaped, ok_bind]
  rfl

/-- One member is read, the first as it stands and a further one behind its comma. -/
theorem members_member {room n : Nat} {k s t r : Text} {v : Value} (first : Bool) (ms : List (Text × Value))
    (hs : skipGap s = stringText k ++ ':' :: t) (h : value room t = .ok (v, r)) :
    members string (takeMember room) (n + 1) first ms (if first then s else ',' :: s) =
      members string (takeMember room) n false (ms ++ [(k, v)]) r := by
  have hkey := keyAt_string k (':' :: t)
  have hnext : nextKey string first (if first then s else ',' :: s) = .ok (.more k (':' :: t)) := by
    cases first with
    | true =>
      rw [stringText_append] at hs hkey
      rw [if_pos rfl, nextKey, hs]
      exact hkey
    | false =>
      rw [if_neg (by decide), nextKey, skipGap_cons (by decide)]
      rw [← hs] at hkey
      exact hkey
  have htake : takeMember room ms k (':' :: t) = .ok (ms ++ [(k, v)], r) := by
    have hcolon : colon (':' :: t) = .ok t := by
      rw [colon, skipGap_cons (by decide)]
      rfl
    simp only [takeMember, hcolon, ok_bind, h]
    rfl
  simp only [members, hnext, ok_bind, htake]

theorem skipGap_stringText (k s : Text) : skipGap (stringText k ++ s) = stringText k ++ s := by
  rw [stringText_append, skipGap_cons (by decide)]

theorem endsNumber_moreMembers (ms : List (Text × Value)) (r : Text) : EndsNumber (moreMembers ms ++ r) := by
  cases ms with
  | nil => exact endsNumber_cons (by decide) _
  | cons m ms =>
    rw [moreMembers]
    exact endsNumber_cons (by decide) _

theorem length_lt_moreMembers (ms : List (Text × Value)) : ms.length < (moreMembers ms).length := by
  induction ms with
  | nil => decide
  | cons m ms ih =>
    simp only [moreMembers, List.length_cons, List.cons_append, List.length_append]
    omega

theorem members_moreMembers {room n : Nat} {ms : List (Text × Value)} (h : ∀ m ∈ ms, Reads room (compact m.2) m.2)
    (hn : ms.length < n) (before : List (Text × Value)) (r : Text) :
    members string (takeMember room) n false before (moreMembers ms ++ r) = .ok (before ++ ms, r) := by
  induction ms generalizing n before with
  | nil =>
    obtain ⟨n, rfl⟩ := Nat.exists_eq_add_one.2 (Nat.zero_lt_of_lt hn)
    rw [List.append_nil]
    exact members_stop before (skipGap_cons (by decide) r)
  | cons m ms ih =>
    obtain ⟨k, v⟩ := m
    obtain ⟨n, rfl⟩ := Nat.exists_eq_add_one.2 (Nat.zero_lt_of_lt hn)
    obtain ⟨hv, hms⟩ := List.forall_mem_cons.1 h
    have hmember := members_member (n := n) false before (skipGap_stringText k _) (hv _ (endsNumber_moreMembers ms r))
    rw [ih hms (Nat.lt_of_succ_lt_succ hn), List.append_assoc] at hmember
    simpa [moreMembers] using hmember

theorem reads_object {room : Nat} {ms : List (Text × Value)} (h : ∀ m ∈ ms, Reads room (compact m.2) m.2) :
    Reads (room + 1) (compact (.object ms)) (.object ms) := by
  intro r _
  cases ms with
  | nil => rfl
  | cons m ms =>
    obtain ⟨k, v⟩ := m
    obtain ⟨hv, hms⟩ := List.forall_mem_cons.1 h
    have hn : ms.length < (stringText k ++ ':' :: (compact v ++ (moreMembers ms ++ r))).length := by
      have hlong := length_lt_moreMembers ms
      simp only [List.length_append, List.length_cons]
      omega
    have hall : allMembers string (takeMember room) [] (stringText k ++ ':' :: (compact v ++ (moreMembers ms ++ r))) =
        .ok ((k, v) :: ms, r) := by
      refine (members_member true [] (skipGap_stringText k _) (hv _ (endsNumber_moreMembers ms r))).trans ?_
      exact members_moreMembers hms hn [(k, v)] r
    have htext : compact (.object ((k, v) :: ms)) ++ r =
        '{' :: (stringText k ++ ':' :: (compact v ++ (moreMembers ms ++ r))) := by
      simp [compact]
    rw [htext]
    exact value_object hall

/-! ## Values -/

theorem value_compact {v : Value} (h : v.Exact) {room : Nat} (hroom : v.depth ≤ room) : Reads room (compact v) v := by
  induction h generalizing room with
  | null =>
    intro r _
    rw [value]
    rfl
  | bool b =>
    intro r _
    cases b
    all_goals
      rw [value]
      rfl
  | integer hlow hhigh => exact reads_integerText room hlow hhigh
  | string s => exact reads_stringText room s
  | @array vs _ ih =>
    rw [Value.depth] at hroom
    obtain ⟨n, rfl⟩ := Nat.exists_eq_add_one.2 (Nat.zero_lt_of_lt hroom)
    refine reads_array fun v hv => ih v hv ?_
    exact Nat.le_trans (depth_le_items hv) (Nat.le_of_succ_le_succ hroom)
  | @object ms _ ih =>
    rw [Value.depth] at hroom
    obtain ⟨n, rfl⟩ := Nat.exists_eq_add_one.2 (Nat.zero_lt_of_lt hroom)
    refine reads_object fun m hm => ih m hm ?_
    exact Nat.le_trans (depth_le_members hm) (Nat.le_of_succ_le_succ hroom)

theorem parse_of_reads {t : Text} {v : Value} (h : Reads maxDepth t v) : parse t = .ok v := by
  have hv := h [] endsNumber_nil
  rw [List.append_nil] at hv
  rw [parse, document, hv, ok_bind]
  rfl

/-- A text that `compact` wrote is read back, if its brackets stand no deeper than the reader goes. -/
theorem parse_compact {v : Value} (h : v.Exact) (hdepth : v.depth ≤ maxDepth) : parse (compact v) = .ok v :=
  parse_of_reads (value_compact h hdepth)

/-- Exact values of any depth have texts of their own. -/
theorem compact_injective {a b : Value} (ha : a.Exact) (hb : b.Exact) (h : compact a = compact b) : a = b := by
  have hra := value_compact ha (Nat.le_max_left a.depth b.depth) [] endsNumber_nil
  have hrb := value_compact hb (Nat.le_max_right a.depth b.depth) [] endsNumber_nil
  rw [h, hrb] at hra
  exact (Prod.mk.inj (Except.ok.inj hra)).1.symm

end Replay.Json
