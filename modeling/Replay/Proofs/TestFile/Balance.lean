/-
  Replay.Proofs.TestFile.Balance — the last close of a test file, by its braces.

  Of a source only the braces of the code count. There is a last close exactly if there are
  such braces, none of them closes what is not open, and all that is opened is closed; the
  last one of them is then the last close. The zones are those of the bytes: a character
  that takes several bytes takes bytes that no mark, quote or brace is made of, so the
  bytes are read like the characters, also behind a backslash.

  Proved here: `settles_iff`, `closeIndex_eq`, `lastCloseFrom_octets`,
  `lastClose_iff_balanced`.
-/

import Replay.Proofs.TestFile.Zones
import Replay.Proofs.TestFile.Reading

namespace Replay.TestFile

open Text

/-! ## Braces of the code -/

def codeBraces : Text → List Zone → Text
  | c :: s, z :: zs => if z = .code ∧ isBrace c = true then c :: codeBraces s zs else codeBraces s zs
  | _, _ => []

/-- Nothing is closed that is not open, and nothing stays open. -/
structure Balanced (bs : Text) : Prop where
  nested : ∀ p, p <+: bs → p.count '}' ≤ p.count '{'
  closed : bs.count '{' = bs.count '}'

/-- The depth goes down to zero at the end and never further. -/
def settles : Nat → Text → Bool
  | depth, [] => depth = 0
  | depth, c :: bs => if c = '{' then settles (depth + 1) bs else 0 < depth && settles (depth - 1) bs

/-- The place of the last brace of the code. -/
def lastBrace : Text → List Zone → Option Nat
  | c :: s, z :: zs =>
    match lastBrace s zs with
    | some i => some (i + 1)
    | none => if z = .code ∧ isBrace c = true then some 0 else none
  | _, _ => none

theorem isBrace_of_mem {s : Text} {zs : List Zone} {c : Char} (h : c ∈ codeBraces s zs) : isBrace c = true := by
  induction s generalizing zs with
  | nil => simp [codeBraces] at h
  | cons d s ih =>
    cases zs with
    | nil => simp [codeBraces] at h
    | cons z zs =>
      rw [codeBraces] at h
      split at h
      · next hd =>
        rcases List.mem_cons.1 h with rfl | h
        · exact hd.2
        · exact ih h
      · exact ih h

theorem lastBrace_eq_none_iff {s : Text} {zs : List Zone} : lastBrace s zs = none ↔ codeBraces s zs = [] := by
  induction s generalizing zs with
  | nil => simp [lastBrace, codeBraces]
  | cons c s ih =>
    cases zs with
    | nil => simp [lastBrace, codeBraces]
    | cons z zs =>
      rw [lastBrace, codeBraces]
      by_cases hc : z = .code ∧ isBrace c = true
      · simp only [hc, and_self, if_true]
        cases lastBrace s zs <;> simp
      · rw [if_neg hc, if_neg hc, ← ih]
        cases lastBrace s zs <;> simp

/-- Behind the last brace no brace of the code is left. -/
theorem lastBrace_spec {s : Text} {zs : List Zone} {i : Nat} (h : lastBrace s zs = some i) :
    zs[i]? = some .code ∧ codeBraces (s.drop (i + 1)) (zs.drop (i + 1)) = [] := by
  induction s generalizing zs i with
  | nil => simp [lastBrace] at h
  | cons c s ih =>
    cases zs with
    | nil => simp [lastBrace] at h
    | cons z zs =>
      rw [lastBrace] at h
      cases hl : lastBrace s zs with
      | some j =>
        rw [hl] at h
        cases h
        simpa using ih hl
      | none =>
        rw [hl] at h
        obtain ⟨⟨rfl, -⟩, rfl⟩ : (z = .code ∧ isBrace c = true) ∧ 0 = i := by simpa using h
        exact ⟨rfl, by simpa using lastBrace_eq_none_iff.1 hl⟩

theorem settles_iff {depth : Nat} {bs : Text} (h : ∀ c ∈ bs, isBrace c = true) : settles depth bs = true ↔
    (∀ p, p <+: bs → p.count '}' ≤ depth + p.count '{') ∧ depth + bs.count '{' = bs.count '}' := by
  induction bs generalizing depth with
  | nil => simp [settles]
  | cons c bs ih =>
    obtain ⟨hc, hbs⟩ := List.forall_mem_cons.1 h
    have hprefix (Q : Text → Prop) : (∀ p, p <+: c :: bs → Q p) ↔ Q [] ∧ ∀ p, p <+: bs → Q (c :: p) := by
      simp only [List.prefix_cons_iff]
      constructor
      · exact fun hq => ⟨hq [] (.inl rfl), fun p hp => hq _ (.inr ⟨p, rfl, hp⟩)⟩
      · intro h p h2
        obtain ⟨hnil, hcons⟩ := h
        rcases h2 with rfl | ⟨t, rfl, ht⟩
        · exact hnil
        · exact hcons t ht
    rw [settles, hprefix]
    by_cases ho : c = '{'
    · subst ho
      rw [if_pos rfl, ih hbs]
      simp only [List.count_nil, List.count_cons_self, List.count_cons_of_ne (show '{' ≠ '}' by decide), Nat.zero_le,
        true_and, Nat.add_assoc, Nat.add_comm 1]
    · obtain rfl : c = '}' := by simpa [isBrace, ho] using hc
      rw [if_neg ho, Bool.and_eq_true, ih hbs]
      simp only [List.count_nil, List.count_cons_self, List.count_cons_of_ne (show '}' ≠ '{' by decide), Nat.zero_le,
        true_and, decide_eq_true_eq]
      constructor
      · intro h
        obtain ⟨hpos, hnest, hclosed⟩ := h
        exact ⟨fun p hp => by have := hnest p hp; omega, by omega⟩
      · intro h
        obtain ⟨hnest, hclosed⟩ := h
        have hfirst := hnest [] List.nil_prefix
        simp only [List.count_nil] at hfirst
        exact ⟨by omega, fun p hp => by have := hnest p hp; omega, by omega⟩

theorem settles_iff_balanced {bs : Text} (h : ∀ c ∈ bs, isBrace c = true) : settles 0 bs = true ↔ Balanced bs := by
  rw [settles_iff h]
  simp only [Nat.zero_add]
  exact ⟨fun ⟨hn, hc⟩ => ⟨hn, hc⟩, fun hb => ⟨hb.nested, hb.closed⟩⟩

/-! ## Reading the braces -/

theorem lastCloseFrom_cons (m : Mode) (depth : Nat) (c : Char) (s : Text) : lastCloseFrom m depth (c :: s) =
    (deeper m depth c).bind fun depth' => (lastCloseFrom (m.next c) depth' s).map fun o =>
      match o with
      | some p => some (c :: p.1, p.2)
      | none => if ends m depth c then some ([], c :: s) else none := by
  simp only [lastCloseFrom, Option.bind_eq_bind]
  refine congrArg _ (funext fun depth' => ?_)
  cases lastCloseFrom (m.next c) depth' s with
  | none => rfl
  | some o => cases o <;> rfl

/-- How far the last close is from the start. -/
def closeIndex (m : Mode) (depth : Nat) (s : Text) : Option (Option Nat) :=
  (lastCloseFrom m depth s).map (Option.map fun p => p.1.length)

theorem closeIndex_cons (m : Mode) (depth : Nat) (c : Char) (s : Text) : closeIndex m depth (c :: s) =
    (deeper m depth c).bind fun depth' => (closeIndex (m.next c) depth' s).map fun o =>
      match o with
      | some i => some (i + 1)
      | none => if ends m depth c then some 0 else none := by
  rw [closeIndex, lastCloseFrom_cons, Option.map_bind]
  refine congrArg _ (funext fun depth' => ?_)
  rw [Function.comp, closeIndex, Option.map_map, Option.map_map]
  refine congrArg (Option.map · _) (funext fun o => ?_)
  cases o with
  | some p => rfl
  | none => cases ends m depth c <;> simp

theorem closeIndex_skip {m : Mode} {c : Char} {depth depth' : Nat} (hd : deeper m depth c = some depth')
    (he : ends m depth c = false) (s : Text) :
    closeIndex m depth (c :: s) = (closeIndex (m.next c) depth' s).map (Option.map (· + 1)) := by
  rw [closeIndex_cons, hd, Option.bind_some]
  refine congrArg (Option.map · _) (funext fun o => ?_)
  cases o <;> simp [he]

/-- Outside the code nothing is counted, and in the code only braces are. -/
theorem closeIndex_plain {m : Mode} {c : Char} {s : Text} (h : ¬ (zoneAt m c s = .code ∧ isBrace c = true))
    (depth : Nat) : closeIndex m depth (c :: s) = (closeIndex (m.next c) depth s).map (Option.map (· + 1)) := by
  cases hm : m.isCode with
  | false => exact closeIndex_skip (by simp [deeper, hm]) (by simp [ends, hm]) s
  | true =>
    obtain ⟨hopen, hclose⟩ : c ≠ '{' ∧ c ≠ '}' := by
      have hb : ¬ isBrace c = true := fun hb => h ⟨(zoneAt_brace hb m s).2 hm, hb⟩
      simpa [isBrace] using hb
    exact closeIndex_skip (deeper_of_not_brace hopen hclose m depth) (by simp [ends, hclose]) s

/-- The last close is the last brace of the code, if the braces settle. -/
theorem closeIndex_eq (m : Mode) (depth : Nat) (s : Text) : closeIndex m depth s =
    if settles depth (codeBraces s (zones m s)) then some (lastBrace s (zones m s)) else none := by
  induction s generalizing m depth with
  | nil => cases depth <;> simp [closeIndex, lastCloseFrom, settles, codeBraces, lastBrace]
  | cons c s ih =>
    rw [zones, codeBraces, lastBrace]
    by_cases hc : zoneAt m c s = .code ∧ isBrace c = true
    · have hm : m.isCode = true := (zoneAt_brace hc.2 m s).1 hc.1
      rw [if_pos hc, if_pos hc, settles]
      by_cases ho : c = '{'
      · subst ho
        have hd : deeper m depth '{' = some (depth + 1) := by simp [deeper, hm]
        rw [closeIndex_skip hd (by simp [ends]), ih, if_pos rfl]
        cases hset : settles (depth + 1) (codeBraces s (zones (m.next '{') s)) with
        | false => rfl
        | true =>
          cases hl : lastBrace s (zones (m.next '{') s) with
          | some i => rfl
          | none =>
            -- An opening brace with none behind it stays open.
            rw [lastBrace_eq_none_iff.1 hl] at hset
            simp [settles] at hset
      · obtain rfl : c = '}' := by simpa [isBrace, ho] using hc.2
        rw [if_neg ho, closeIndex_cons]
        cases depth with
        | zero =>
          have hd : deeper m 0 '}' = none := by simp [deeper, hm]
          simp [hd]
        | succ depth =>
          rw [deeper_brace hm, Option.bind_some, ih, Nat.add_sub_cancel, decide_eq_true (Nat.succ_pos depth),
            Bool.true_and]
          cases hset : settles depth (codeBraces s (zones (m.next '}') s)) with
          | false => rfl
          | true =>
            cases hl : lastBrace s (zones (m.next '}') s) with
            | some i => rfl
            | none =>
              -- A closing brace with none behind it settles at depth one only.
              rw [lastBrace_eq_none_iff.1 hl] at hset
              have hends : ends m (depth + 1) '}' = true := by simpa [ends, hm, settles] using hset
              simp [hends]
    · rw [closeIndex_plain hc, ih, if_neg hc, if_neg hc]
      split
      · cases lastBrace s (zones (m.next c) s) <;> rfl
      · rfl

/-! ## Bytes -/

/-- A byte as the character of that number. -/
def octet (b : UInt8) : Char := Char.ofNat b.toNat

/-- The bytes of the UTF-8 form. -/
def octets (s : Text) : Text := s.flatMap fun c => (String.utf8EncodeChar c).map octet

@[simp] theorem octets_nil : octets [] = [] := rfl

theorem octets_cons (c : Char) (s : Text) : octets (c :: s) = (String.utf8EncodeChar c).map octet ++ octets s := rfl

theorem length_octets (s : Text) : (octets s).length = bytes s := by
  induction s with
  | nil => rfl
  | cons c s ih => rw [octets_cons, List.length_append, List.length_map, String.length_utf8EncodeChar, ih, bytes]

theorem octets_append (a b : Text) : octets (a ++ b) = octets a ++ octets b := List.flatMap_append

theorem toNat_octet (b : UInt8) : (octet b).toNat = b.toNat := by
  have hv : b.toNat.isValidChar := .inl (Nat.lt_trans b.toNat_lt (by decide))
  rw [octet, Char.ofNat, dif_pos hv]
  rfl

theorem encode_ascii {c : Char} (h : c.toNat < 128) : (String.utf8EncodeChar c).map octet = [c] := by
  have hv : c.val.toNat ≤ 0x7f := Nat.le_of_lt_succ h
  have hb : octet (UInt8.ofNat c.toNat) = c := by
    apply Char.toNat_inj.1
    rw [toNat_octet, UInt8.toNat_ofNat', Nat.mod_eq_of_lt (by omega)]
  simp only [String.utf8EncodeChar, if_pos hv]
  exact congrArg (· :: []) hb

theorem octets_cons_ascii {c : Char} (h : c.toNat < 128) (s : Text) : octets (c :: s) = c :: octets s := by
  rw [octets_cons, encode_ascii h, List.singleton_append]

/-- A character of several bytes has none that stands for itself. -/
theorem encode_high {c : Char} (h : 128 ≤ c.toNat) : ∀ d ∈ (String.utf8EncodeChar c).map octet, 128 ≤ d.toNat := by
  have hv : ¬ c.val.toNat ≤ 0x7f := Nat.not_le_of_lt h
  have hbyte {n : Nat} (hn : 128 ≤ n) (hn' : n < 256) : 128 ≤ (octet (UInt8.ofNat n)).toNat := by
    rw [toNat_octet, UInt8.toNat_ofNat', Nat.mod_eq_of_lt hn']
    exact hn
  simp only [String.utf8EncodeChar, if_neg hv]
  split
  · simp only [List.map_cons, List.map_nil, List.forall_mem_cons]
    exact ⟨hbyte (by omega) (by omega), hbyte (by omega) (by omega), by simp⟩
  · split
    · simp only [List.map_cons, List.map_nil, List.forall_mem_cons]
      exact ⟨hbyte (by omega) (by omega), hbyte (by omega) (by omega), hbyte (by omega) (by omega), by simp⟩
    · simp only [List.map_cons, List.map_nil, List.forall_mem_cons]
      exact ⟨hbyte (by omega) (by omega), hbyte (by omega) (by omega), hbyte (by omega) (by omega),
        hbyte (by omega) (by omega), by simp⟩

/-- The mode behind a character that no mark, quote or brace is made of. -/
def Mode.beyond : Mode → Mode
  | code | slash => code
  | lineComment => lineComment
  | blockComment | star => blockComment
  | quote mark | escape mark => quote mark

theorem beyond_beyond (m : Mode) : m.beyond.beyond = m.beyond := by cases m <;> rfl

abbrev Mode.Quoted (m : Mode) : Prop := m.QuoteIs (isQuote · = true)

theorem quoted_next {m : Mode} (h : m.Quoted) (c : Char) : (m.next c).Quoted := quoteIs_next (by decide) (by decide) h c

theorem quoted_beyond {m : Mode} (h : m.Quoted) : m.beyond.Quoted := by
  cases m <;> exact h

theorem ne_of_high {c d : Char} (hc : 128 ≤ c.toNat) (hd : d.toNat < 128) : c ≠ d := by
  rintro rfl
  omega

theorem next_high {m : Mode} (hm : m.Quoted) {c : Char} (hc : 128 ≤ c.toNat) : m.next c = m.beyond := by
  have hne : ∀ d : Char, d.toNat < 128 → c ≠ d := fun d hd => ne_of_high hc hd
  have hplain : Mode.plain c = .code :=
    plain_of_ne (hne '/' (by decide)) (hne '"' (by decide)) (hne '\x27' (by decide))
  cases m with
  | code => exact hplain
  | slash => simp [Mode.next, Mode.beyond, hplain, hne '/' (by decide), hne '*' (by decide)]
  | lineComment => simp [Mode.next, Mode.beyond, hne '\n' (by decide)]
  | blockComment => simp [Mode.next, Mode.beyond, hne '*' (by decide)]
  | star => simp [Mode.next, Mode.beyond, hne '/' (by decide), hne '*' (by decide)]
  | quote mark =>
    have hmark : mark.toNat < 128 := by rcases isQuote_iff.1 hm with rfl | rfl <;> decide
    simp [Mode.next, Mode.beyond, hne mark hmark, hne '\\' (by decide)]
  | escape mark => rfl

theorem lastCloseFrom_skip {m : Mode} {c : Char} (hopen : c ≠ '{') (hclose : c ≠ '}') (depth : Nat) (s : Text) :
    lastCloseFrom m depth (c :: s) =
      (lastCloseFrom (m.next c) depth s).map (Option.map fun p => (c :: p.1, p.2)) := by
  rw [lastCloseFrom_cons, deeper_of_not_brace hopen hclose, Option.bind_some]
  refine congrArg (Option.map · _) (funext fun o => ?_)
  cases o <;> simp [ends, hclose]

/-- A run of such characters is read like one of them. -/
theorem lastCloseFrom_high {m : Mode} (hm : m.Quoted) {t : Text} (hne : t ≠ []) (ht : ∀ c ∈ t, 128 ≤ c.toNat)
    (depth : Nat) (s : Text) : lastCloseFrom m depth (t ++ s) =
      (lastCloseFrom m.beyond depth s).map (Option.map fun p => (t ++ p.1, p.2)) := by
  induction t generalizing m with
  | nil => exact absurd rfl hne
  | cons c t ih =>
    obtain ⟨hc, ht⟩ := List.forall_mem_cons.1 ht
    rw [List.cons_append, lastCloseFrom_skip (ne_of_high hc (by decide)) (ne_of_high hc (by decide)), next_high hm hc]
    by_cases hnil : t = []
    · subst hnil
      rfl
    · rw [ih (quoted_beyond hm) hnil ht, beyond_beyond, Option.map_map]
      refine congrArg (Option.map · _) (funext fun o => ?_)
      cases o <;> rfl

/-- The bytes are cut where the characters are. -/
theorem lastCloseFrom_octets {m : Mode} (hm : m.Quoted) (depth : Nat) (s : Text) : lastCloseFrom m depth (octets s) =
    (lastCloseFrom m depth s).map (Option.map fun p => (octets p.1, octets p.2)) := by
  induction s generalizing m depth with
  | nil => cases depth <;> rfl
  | cons c s ih =>
    rcases Nat.lt_or_ge c.toNat 128 with hc | hc
    · have hcut := octets_cons_ascii hc
      rw [hcut, lastCloseFrom_cons, lastCloseFrom_cons, Option.map_bind]
      refine congrArg _ (funext fun depth' => ?_)
      rw [ih (quoted_next hm c), Function.comp, Option.map_map, Option.map_map]
      refine congrArg (Option.map · _) (funext fun o => ?_)
      cases o with
      | some p => simp [hcut]
      | none => cases ends m depth c <;> simp [hcut]
    · have hrun := lastCloseFrom_high hm (List.cons_ne_nil c []) (by simpa using hc) depth s
      have hne : (String.utf8EncodeChar c).map octet ≠ [] := by simp [String.utf8EncodeChar_ne_nil]
      rw [octets_cons, lastCloseFrom_high hm hne (encode_high hc), ih (quoted_beyond hm), ← List.singleton_append,
        hrun, Option.map_map, Option.map_map]
      refine congrArg (Option.map · _) (funext fun o => ?_)
      cases o <;> rfl

theorem lastClose_eq_iff (s : Text) (i : Nat) : (∃ p, lastClose s = some p ∧ bytes p.1 = i) ↔
    settles 0 (codeBraces (octets s) (zones .code (octets s))) = true ∧
      lastBrace (octets s) (zones .code (octets s)) = some i := by
  have hindex : closeIndex .code 0 (octets s) = (lastCloseFrom .code 0 s).map (Option.map fun p => bytes p.1) := by
    have hm : Mode.code.Quoted := trivial
    rw [closeIndex, lastCloseFrom_octets hm, Option.map_map]
    refine congrArg (Option.map · _) (funext fun o => ?_)
    cases o with
    | none => rfl
    | some p => exact congrArg some (length_octets p.1)
  have hread : (closeIndex .code 0 (octets s)).join = some i ↔ ∃ p, lastClose s = some p ∧ bytes p.1 = i := by
    rw [hindex, lastClose]
    rcases lastCloseFrom .code 0 s with _ | _ | p <;> simp
  rw [← hread, closeIndex_eq]
  cases settles 0 (codeBraces (octets s) (zones .code (octets s))) <;> simp

/-- There is a last close exactly if the braces of the code balance, and it is the last one of them. -/
theorem lastClose_iff_balanced (s : Text) :
    ∃ zs, Zoned (octets s) zs ∧ (∀ zs', Zoned (octets s) zs' → zs' = zs) ∧
      ((∃ p, lastClose s = some p) ↔ codeBraces (octets s) zs ≠ [] ∧ Balanced (codeBraces (octets s) zs)) ∧
      ∀ a b, lastClose s = some (a, b) →
        s = a ++ b ∧ (octets s)[bytes a]? = some '}' ∧ zs[bytes a]? = some .code ∧
          codeBraces ((octets s).drop (bytes a + 1)) (zs.drop (bytes a + 1)) = [] := by
  refine ⟨zones .code (octets s), zoned_iff.2 rfl, fun zs' h => (zoned_iff.1 h).symm, ?_, ?_⟩
  · have hbraces : ∀ c ∈ codeBraces (octets s) (zones .code (octets s)), isBrace c = true := fun c hc =>
      isBrace_of_mem hc
    rw [← settles_iff_balanced hbraces, Ne, ← lastBrace_eq_none_iff]
    constructor
    · intro h
      obtain ⟨p, hp⟩ := h
      obtain ⟨hset, hlast⟩ := (lastClose_eq_iff s (bytes p.1)).1 ⟨p, hp, rfl⟩
      exact ⟨by simp [hlast], hset⟩
    · intro h
      obtain ⟨hlast, hset⟩ := h
      obtain ⟨i, hi⟩ := Option.ne_none_iff_exists'.1 hlast
      obtain ⟨p, hp, -⟩ := (lastClose_eq_iff s i).2 ⟨hset, hi⟩
      exact ⟨p, hp⟩
  · intro a b h
    obtain ⟨rfl, -, r, rfl, -⟩ := lastClose_eq_some_iff.1 h
    obtain ⟨-, hlast⟩ := (lastClose_eq_iff _ (bytes a)).1 ⟨_, h, rfl⟩
    have hplace : (octets (a ++ '}' :: r))[bytes a]? = some '}' := by
      rw [octets_append, octets_cons, ← length_octets, List.getElem?_append_right (Nat.le_refl _), Nat.sub_self]
      rfl
    exact ⟨rfl, hplace, lastBrace_spec hlast⟩

end Replay.TestFile
