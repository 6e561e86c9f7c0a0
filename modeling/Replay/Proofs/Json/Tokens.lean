/-
  Replay.Proofs.Json.Tokens — strings and whole numbers written and read back.

  Every character of a string is written as itself or as an escape, and either is read as
  that one character; no escape begins with a quote, so the string ends at its own closing
  quote, whatever follows it. A whole number goes on as long as digits do, and a point or
  an exponent makes it a float. So it is read back in front of any text that begins with
  none of these (`EndsNumber`), if it fits the word that its digits are gathered in.

  Proved here: `stringChar_escape`, `string_escaped`, `number_integerText`.
-/

import Replay.Json.Lexical
import Replay.Json.Printer
import Replay.Proofs.Success
import Replay.Proofs.Text.Digits
import Replay.Proofs.Text.Marks

namespace Replay.Json

open Text

/-! ## Gaps -/

theorem skipGap_cons {c : Char} (h : isGap c = false) (s : Text) : skipGap (c :: s) = c :: s := by
  rw [skipGap, List.dropWhile_cons_of_neg (by simp [h])]

theorem skipGap_skipGap (s : Text) : skipGap (skipGap s) = skipGap s := by
  obtain ⟨gap, rest, rfl, hgap, hrest⟩ := exists_run isGap s
  have hskip : skipGap (gap ++ rest) = rest := dropWhile_run hgap hrest
  have hstay : skipGap rest = rest := dropWhile_of_head hrest
  rw [hskip, hstay]

/-! ## Strings -/

theorem unicodeEscape_control {c : Char} (h : c.toNat < 32) (r : Text) :
    unicodeEscape ('0' :: '0' :: hexDigit (c.toNat / 16) :: hexDigit (c.toNat % 16) :: r) = .ok (c, r) := by
  have hzero : hexValue? '0' = some 0 := by decide
  have hhigh := hexValue?_hexDigit (show c.toNat / 16 < 16 by omega)
  have hlow := hexValue?_hexDigit (show c.toNat % 16 < 16 by omega)
  have hsum : c.toNat / 16 * 16 + c.toNat % 16 = c.toNat := by omega
  have hquad : hexQuad ('0' :: '0' :: hexDigit (c.toNat / 16) :: hexDigit (c.toNat % 16) :: r) = .ok (c.toNat, r) := by
    simp [hexQuad, hzero, hhigh, hlow, hsum]
  have htrail : ¬ (0xDC00 ≤ c.toNat ∧ c.toNat ≤ 0xDFFF) := by omega
  have hsingle : c.toNat < 0xD800 ∨ 0xDBFF < c.toNat := by omega
  simp only [unicodeEscape, hquad, ok_bind, if_neg htrail, if_pos hsingle, Char.ofNat_toNat]
  rfl

/-- Each character is read from its escape. -/
theorem stringChar_escape (c : Char) (r : Text) : stringChar (escape c ++ r) = .ok (some c, r) := by
  unfold escape
  split
  · next h => rw [h]; rfl
  split
  · next h => rw [h]; rfl
  split
  · next h => rw [h]; rfl
  split
  · next h => rw [h]; rfl
  split
  · next h => rw [h]; rfl
  split
  · next h =>
    obtain rfl : c = '\x08' := Char.toNat_inj.1 h
    rfl
  split
  · next h =>
    obtain rfl : c = '\x0c' := Char.toNat_inj.1 h
    rfl
  split
  · next h =>
    simp only [List.cons_append, List.nil_append, stringChar, unicodeEscape_control h, ok_bind]
    rfl
  · next hbackslash _ _ _ _ _ hcontrol => simp [stringChar, hbackslash, hcontrol]

theorem stringFrom_escaped {s : Text} {fuel : Nat} (h : s.length < fuel) (r : Text) :
    stringFrom fuel (s.flatMap escape ++ '"' :: r) = .ok (s, r) := by
  induction s generalizing fuel with
  | nil =>
    cases fuel with
    | zero => cases h
    | succ fuel => rfl
  | cons c s ih =>
    cases fuel with
    | zero => cases h
    | succ fuel =>
      simp only [List.flatMap_cons, List.append_assoc, stringFrom, stringChar_escape, ok_bind,
        ih (Nat.lt_of_succ_lt_succ h)]
      rfl

theorem escape_ne_nil (c : Char) : escape c ≠ [] := by
  unfold escape
  repeat' split
  all_goals exact List.cons_ne_nil _ _

theorem length_le_escaped (s : Text) : s.length ≤ (s.flatMap escape).length := by
  induction s with
  | nil => exact Nat.le_refl 0
  | cons c s ih =>
    have hc := List.length_pos_iff.2 (escape_ne_nil c)
    rw [List.flatMap_cons, List.length_append, List.length_cons]
    omega

/-- A string ends at its own closing quote. -/
theorem string_escaped (s r : Text) : string (s.flatMap escape ++ '"' :: r) = .ok (s, r) := by
  refine stringFrom_escaped ?_ r
  have hlong := length_le_escaped s
  rw [List.length_append]
  omega

theorem stringText_append (s r : Text) : stringText s ++ r = '"' :: (s.flatMap escape ++ '"' :: r) := by
  simp [stringText]

/-! ## Whole numbers -/

/-- Begins with nothing that a number could go on with. -/
def EndsNumber (s : Text) : Prop := ∀ c ∈ s.head?, isAsciiDigit c = false ∧ c ≠ '.' ∧ isExponentMark c = false

theorem endsNumber_nil : EndsNumber [] := by
  intro c hc
  cases hc

theorem endsNumber_cons {c : Char} (h : isAsciiDigit c = false ∧ c ≠ '.' ∧ isExponentMark c = false) (s : Text) :
    EndsNumber (c :: s) := by
  intro d hd
  obtain rfl := Option.some.inj (show some c = some d from hd)
  exact h

section EndsNumber

variable {r : Text} (h : EndsNumber r)

include h

theorem EndsNumber.not_digit : ∀ c ∈ r.head?, isAsciiDigit c = false := fun c hc => (h c hc).1

theorem EndsNumber.takeWhile_eq : r.takeWhile isAsciiDigit = [] := takeWhile_of_head h.not_digit

theorem EndsNumber.dropWhile_eq : r.dropWhile isAsciiDigit = r := dropWhile_of_head h.not_digit

theorem EndsNumber.head_eq : (r.head?.map isAsciiDigit).getD false = false := by
  cases r with
  | nil => rfl
  | cons c r => exact (h c rfl).1

theorem EndsNumber.mark_eq : (r.head?.map isExponentMark).getD false = false := by
  cases r with
  | nil => rfl
  | cons c r => exact (h c rfl).2.2

end EndsNumber

theorem le_ofDigitChars (ds : Text) (w : Nat) : w ≤ Nat.ofDigitChars 10 ds w := by
  induction ds generalizing w with
  | nil => exact Nat.le_refl w
  | cons c ds ih =>
    rw [Nat.ofDigitChars_cons]
    have hrest := ih (10 * w + (c.toNat - '0'.toNat))
    omega

/-- No digit is dropped of a number that fits the word: what was gathered before the end is no larger. -/
theorem gather_digits {ds r : Text} {w : Nat} (hd : ∀ c ∈ ds, isAsciiDigit c = true)
    (hr : ∀ c ∈ r.head?, isAsciiDigit c = false) (hw : Nat.ofDigitChars 10 ds w < 0x10000000000000000) :
    gather w (ds ++ r) = (Nat.ofDigitChars 10 ds w, ds.length, r) := by
  induction ds generalizing w with
  | nil =>
    cases r with
    | nil => rfl
    | cons c r => simp [gather, hr c rfl]
  | cons c ds ih =>
    obtain ⟨hc, hds⟩ := List.forall_mem_cons.1 hd
    have hword : 10 * w + (c.toNat - '0'.toNat) = w * 10 + digitValue c := by
      rw [Nat.mul_comm]
      rfl
    rw [Nat.ofDigitChars_cons, hword] at hw ⊢
    have hstep := Nat.lt_of_le_of_lt (le_ofDigitChars ds _) hw
    rw [List.cons_append, gather, if_pos ⟨hc, hstep⟩, ih hds hw]
    rfl

theorem magnitude_decimal (negative : Bool) {n : Nat} (hn : n < 0x10000000000000000)
    (hneg : negative = true → 0 < n ∧ n ≤ 0x8000000000000000) {r : Text} (hr : EndsNumber r) :
    magnitude negative (decimal n ++ r) = .ok (.integer (if negative then -n else n), r) := by
  rcases Nat.eq_zero_or_pos n with rfl | hpos
  · have hzero : decimal 0 = ['0'] := by decide
    have hplus : negative = false := by
      rw [Bool.eq_false_iff]
      intro hm
      exact absurd (hneg hm).1 (Nat.lt_irrefl 0)
    subst hplus
    simp only [hzero, List.cons_append, List.nil_append, magnitude, hr.head_eq, Bool.false_eq_true, if_false, pure_bind,
      hr.takeWhile_eq, hr.dropWhile_eq]
    split
    · exact absurd rfl (hr '.' rfl).2.1
    · simp [hr.mark_eq, pure, Except.pure]
  · have hread : Nat.ofDigitChars 10 (decimal n) 0 = n := Nat.ofDigitChars_ten_toDigits
    have hg := gather_digits (w := 0) (fun c hc => isAsciiDigit_of_mem_decimal hc) hr.not_digit (by rw [hread]; exact hn)
    obtain ⟨c, ds, hd, hdigit⟩ := exists_decimal n
    have hc := decimal_head_ne_zero hpos hd
    rw [hread, hd, List.cons_append] at hg
    simp only [hd, List.cons_append, magnitude, hdigit, if_true, hg, pure_bind, hr.takeWhile_eq, hr.dropWhile_eq]
    split
    · exact absurd rfl (hr '.' rfl).2.1
    · cases negative with
      | false => simp [hr.mark_eq, pure, Except.pure]
      | true =>
        obtain ⟨hlow, hhigh⟩ := hneg rfl
        have hin : ¬ (n = 0 ∨ 0x8000000000000000 < n) := by omega
        simp [hr.mark_eq, hin, pure, Except.pure]

/-- A minus sign or a digit. -/
def startsNumber (c : Char) : Bool := c = '-' || isAsciiDigit c

theorem integerText_head (i : Int) : ∃ c t, integerText i = c :: t ∧ startsNumber c = true := by
  unfold integerText
  split
  · exact ⟨'-', decimal i.natAbs, rfl, rfl⟩
  · obtain ⟨c, ds, hd, hc⟩ := exists_decimal i.natAbs
    exact ⟨c, ds, hd, by simp [startsNumber, hc]⟩

theorem number_integerText {i : Int} (hlow : -0x8000000000000000 ≤ i) (hhigh : i < 0x10000000000000000) {r : Text}
    (hr : EndsNumber r) : number (integerText i ++ r) = .ok (.integer i, r) := by
  unfold integerText
  split
  · next hneg =>
    have hi : -(i.natAbs : Int) = i := by omega
    have hm := magnitude_decimal true (n := i.natAbs) (by omega) (by omega) hr
    rw [List.cons_append, number, hm, if_pos rfl, hi]
  · next hneg =>
    have hi : (i.natAbs : Int) = i := by omega
    have hm := magnitude_decimal false (n := i.natAbs) (by omega) (by intro h; cases h) hr
    have hsign : ∀ t, decimal i.natAbs ++ r ≠ '-' :: t := by
      intro t ht
      obtain ⟨c, ds, hd, hc⟩ := exists_decimal i.natAbs
      rw [hd] at ht
      obtain ⟨rfl, -⟩ := List.cons.inj ht
      exact absurd hc (by decide)
    rw [number, hm, hi]
    · rfl
    · exact hsign

end Replay.Json
