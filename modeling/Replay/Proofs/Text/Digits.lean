/-
  Replay.Proofs.Text.Digits — digits written and read back.

  A number is written in decimal digits without leading zeros, so its digits name it. A
  value below sixteen is written as one hexadecimal digit, and is read from that digit and
  from its capital. So the digit written for a value that was read is the one it was read
  from, in lower case.

  Proved here: `decimal_injective`, `exists_decimal`, `hexValue?_hexDigit`,
  `hexDigit_of_hexValue?`.
-/

import Replay.Text.Class

namespace Replay.Text

/-! ## Decimal digits -/

theorem decimal_injective {i j : Nat} (h : decimal i = decimal j) : i = j := by
  have hread : ∀ n, Nat.ofDigitChars 10 (decimal n) 0 = n := fun n => Nat.ofDigitChars_ten_toDigits
  rw [← hread i, h, hread]

theorem isAsciiDigit_of_mem_decimal {n : Nat} {c : Char} (h : c ∈ decimal n) : isAsciiDigit c = true := by
  have hc := Nat.isDigit_of_mem_toDigits (by decide) (by decide) h
  simp only [Char.isDigit, Bool.and_eq_true, decide_eq_true_eq] at hc
  simp only [isAsciiDigit, Bool.and_eq_true, decide_eq_true_eq]
  exact hc

theorem exists_decimal (n : Nat) : ∃ c ds, decimal n = c :: ds ∧ isAsciiDigit c = true := by
  cases hd : decimal n with
  | nil => exact absurd hd Nat.toDigits_ne_nil
  | cons c ds => exact ⟨c, ds, rfl, isAsciiDigit_of_mem_decimal (n := n) (by simp [hd])⟩

/-- Only zero begins with a zero. -/
theorem decimal_head_ne_zero {n : Nat} (h : 0 < n) {c : Char} {ds : Text} (hd : decimal n = c :: ds) : c ≠ '0' := by
  induction n using Nat.strongRecOn generalizing ds with
  | _ n ih =>
    by_cases hn : n < 10
    · rw [decimal, Nat.toDigits_of_lt_base hn] at hd
      obtain ⟨rfl, -⟩ := List.cons.inj hd
      exact (by decide : ∀ n < 10, 0 < n → n.digitChar ≠ '0') n hn h
    · obtain ⟨e, es, he, -⟩ := exists_decimal (n / 10)
      rw [decimal, Nat.toDigits_of_base_le (by decide) (by omega), ← decimal, he] at hd
      obtain ⟨rfl, -⟩ := List.cons.inj hd
      exact ih (n / 10) (by omega) (by omega) he

/-! ## Hexadecimal digits -/

theorem hexValue?_hexDigit {n : Nat} (h : n < 16) : hexValue? (hexDigit n) = some n :=
  (by decide : ∀ n < 16, hexValue? (hexDigit n) = some n) n h

theorem hexValue?_toUpper {n : Nat} (h : n < 16) : hexValue? (hexDigit n).toUpper = some n :=
  (by decide : ∀ n < 16, hexValue? (hexDigit n).toUpper = some n) n h

theorem isHex_iff_exists_value {c : Char} : isHex c = true ↔ ∃ v, hexValue? c = some v := by
  unfold isHex hexValue?
  cases isAsciiDigit c <;> cases ('a' ≤ c && c ≤ 'f' : Bool) <;> cases ('A' ≤ c && c ≤ 'F' : Bool) <;> simp

/-- No digit stands behind `f`. -/
theorem le_of_isHex {c : Char} (h : isHex c = true) : c.toNat ≤ 102 := by
  simp only [isHex, isAsciiDigit, Bool.or_eq_true, Bool.and_eq_true, decide_eq_true_eq] at h
  have hle : ∀ d : Char, c ≤ d → c.toNat ≤ d.toNat := fun d hd => hd
  rcases h with (⟨-, h⟩ | ⟨-, h⟩) | ⟨-, h⟩
  · exact Nat.le_trans (hle _ h) (by decide)
  · exact hle _ h
  · exact Nat.le_trans (hle _ h) (by decide)

theorem hexDigit_of_hexValue? {c : Char} {v : Nat} (h : hexValue? c = some v) : v < 16 ∧ hexDigit v = c.toLower := by
  have hall : ∀ n ≤ 102, ∀ v ∈ hexValue? (Char.ofNat n), v < 16 ∧ hexDigit v = (Char.ofNat n).toLower := by decide
  have hc := hall c.toNat (le_of_isHex (isHex_iff_exists_value.2 ⟨v, h⟩))
  rw [Char.ofNat_toNat] at hc
  exact hc v h

end Replay.Text
