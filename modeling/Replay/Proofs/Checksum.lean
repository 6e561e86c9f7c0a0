/-
  Replay.Proofs.Checksum — one spelling for each address.

  A text `Spells` the forty digits that stand in it, with `0x` before them or not. What the
  checksum makes of it depends on the values of the digits, and the values say what the
  digits are up to case (`exists_digits`). The checksum only chooses the case of each digit
  again, by whatever hash: so it spells the same digits, and two spellings have one
  checksum exactly if their digits agree in lower case. Nothing here depends on what the
  hash is.

  Proved here: `exists_digits`, `lower_cased`, `checksum_spells`, `checksum_eq_iff`,
  `checksum_checksum`.
-/

import Replay.Address
import Replay.Proofs.Text.Digits

namespace Replay.Address

open Text

/-- In lower case. -/
def lower (s : Text) : Text := s.map Char.toLower

/-- Forty hexadecimal digits, alone or behind `0x` or `0X`. -/
structure Spells (s digits : Text) : Prop where
  text : s = digits ∨ s = "0x".toList ++ digits ∨ s = "0X".toList ++ digits
  length : digits.length = 40
  hex : ∀ c ∈ digits, isHex c = true

/-! ## Values -/

theorem exists_values {ds : Text} (h : ∀ c ∈ ds, isHex c = true) :
    ∃ vs, ds.mapM hexValue? = some vs ∧ lowerText vs = lower ds ∧ ∀ v ∈ vs, v < 16 := by
  induction ds with
  | nil => exact ⟨[], rfl, rfl, by simp⟩
  | cons c ds ih =>
    obtain ⟨hc, hds⟩ := List.forall_mem_cons.1 h
    obtain ⟨v, hv⟩ := isHex_iff_exists_value.1 hc
    obtain ⟨vs, hvs, hlower, hsmall⟩ := ih hds
    obtain ⟨hlt, hdigit⟩ := hexDigit_of_hexValue? hv
    refine ⟨v :: vs, by simp [hv, hvs], ?_, List.forall_mem_cons.2 ⟨hlt, hsmall⟩⟩
    rw [lowerText, List.map_cons, hdigit, ← lowerText, hlower]
    rfl

theorem isHex_of_values {ds : Text} {vs : List Nat} (h : ds.mapM hexValue? = some vs) : ∀ c ∈ ds, isHex c = true := by
  induction ds generalizing vs with
  | nil => simp
  | cons c ds ih =>
    simp only [List.mapM_cons, Option.bind_eq_bind, Option.bind_eq_some_iff] at h
    obtain ⟨v, hv, ws, hws, -⟩ := h
    exact List.forall_mem_cons.2 ⟨isHex_iff_exists_value.2 ⟨v, hv⟩, ih hws⟩

theorem values_lowerText {vs : List Nat} (h : ∀ v ∈ vs, v < 16) : (lowerText vs).mapM hexValue? = some vs := by
  induction vs with
  | nil => rfl
  | cons v vs ih =>
    obtain ⟨hv, hvs⟩ := List.forall_mem_cons.1 h
    have hrest := ih hvs
    rw [lowerText] at hrest ⊢
    simp [hexValue?_hexDigit hv, hrest]

/-! ## Addresses -/

theorem bare_cases (s : Text) : s = bare s ∨ s = "0x".toList ++ bare s ∨ s = "0X".toList ++ bare s := by
  unfold bare
  split
  · exact .inr (.inl rfl)
  · exact .inr (.inr rfl)
  · exact .inl rfl

theorem bare_of_hex {ds : Text} (h : ∀ c ∈ ds, isHex c = true) : bare ds = ds := by
  unfold bare
  split
  · exact absurd (h 'x' (by simp)) (by decide)
  · exact absurd (h 'X' (by simp)) (by decide)
  · rfl

theorem Spells.bare_eq {s ds : Text} (h : Spells s ds) : bare s = ds := by
  rcases h.text with rfl | rfl | rfl
  · exact bare_of_hex h.hex
  · rfl
  · rfl

/-- The values of an address say what its digits are up to case. -/
theorem exists_digits {s ds : Text} (h : Spells s ds) :
    ∃ vs, digits? s = some vs ∧ lowerText vs = lower ds ∧ ∀ v ∈ vs, v < 16 := by
  obtain ⟨vs, hvs, hlower, hsmall⟩ := exists_values h.hex
  refine ⟨vs, ?_, hlower, hsmall⟩
  rw [digits?, h.bare_eq, if_pos (show ds.length = digitCount from h.length), hvs]

theorem spells_of_digits {s : Text} {vs : List Nat} (h : digits? s = some vs) : Spells s (bare s) := by
  unfold digits? at h
  split at h
  · next hlen => exact ⟨bare_cases s, hlen, isHex_of_values h⟩
  · cases h

/-! ## The case of each digit -/

variable {vs : List Nat}

/-- A digit keeps its value in either case. -/
theorem hexValue?_cased {v : Nat} (h : v < 16) (n : Nat) :
    hexValue? (if 8 ≤ n then (hexDigit v).toUpper else hexDigit v) = some v := by
  split
  · exact hexValue?_toUpper h
  · exact hexValue?_hexDigit h

theorem lower_cased (h : ∀ v ∈ vs, v < 16) (hash : List Nat) : lower (cased hash vs) = lowerText vs := by
  refine List.ext_getElem (by simp [lower, cased, lowerText]) fun i hi _ => ?_
  have hlt : i < vs.length := by simpa [lower, cased] using hi
  have hv : vs[i] < 16 := h _ (List.getElem_mem hlt)
  simp only [lower, cased, lowerText, List.getElem_map, List.getElem_mapIdx]
  exact (hexDigit_of_hexValue? (hexValue?_cased hv _)).2.symm

theorem isHex_of_mem_cased (h : ∀ v ∈ vs, v < 16) {hash : List Nat} {c : Char} (hc : c ∈ cased hash vs) :
    isHex c = true := by
  obtain ⟨i, hi, rfl⟩ := List.mem_mapIdx.1 hc
  have hv : vs[i] < 16 := h _ (List.getElem_mem _)
  exact isHex_iff_exists_value.2 ⟨vs[i], hexValue?_cased hv _⟩

/-! ## Checksums -/

/-- The checksum of an address spells the same digits. -/
theorem checksum_spells {s ds : Text} (h : Spells s ds) :
    ∃ ds', checksum s = "0x".toList ++ ds' ∧ Spells (checksum s) ds' ∧ lower ds' = lower ds := by
  obtain ⟨vs, hvs, hlower, hsmall⟩ := exists_digits h
  have hspelling : checksum s = "0x".toList ++ cased (hashDigits vs) vs := by
    rw [checksum, hvs]
    rfl
  have hlength : (cased (hashDigits vs) vs).length = 40 := by
    have hlong := congrArg List.length hlower
    simp only [lowerText, lower, List.length_map, h.length] at hlong
    rw [cased, List.length_mapIdx, hlong]
  refine ⟨_, hspelling, ⟨.inr (.inl hspelling), hlength, fun c hc => isHex_of_mem_cased hsmall hc⟩, ?_⟩
  rw [lower_cased hsmall, hlower]

example : checksum "0X5FBDB2315678AFECB367F032D93F642F64180AA3".toList =
    "0x5FbDB2315678afecb367f032d93F642f64180aa3".toList := by decide +kernel

theorem checksum_eq_iff {s ds t es : Text} (hs : Spells s ds) (ht : Spells t es) :
    checksum s = checksum t ↔ lower ds = lower es := by
  constructor
  · intro h
    obtain ⟨ds', hds, -, hlowerd⟩ := checksum_spells hs
    obtain ⟨es', hes, -, hlowere⟩ := checksum_spells ht
    rw [hds, hes] at h
    rw [← hlowerd, ← hlowere, List.append_cancel_left h]
  · intro h
    obtain ⟨vs, hvs, hlowerv, hsmallv⟩ := exists_digits hs
    obtain ⟨ws, hws, hlowerw, hsmallw⟩ := exists_digits ht
    have hread := values_lowerText hsmallv
    rw [hlowerv, h, ← hlowerw, values_lowerText hsmallw] at hread
    rw [checksum, checksum, hvs, hws, Option.some.inj hread]

theorem checksum_of_not_spells {s : Text} (h : ∀ ds, ¬ Spells s ds) : checksum s = s := by
  cases hd : digits? s with
  | none => rw [checksum, hd]
  | some vs => exact absurd (spells_of_digits hd) (h _)

theorem checksum_checksum (s : Text) : checksum (checksum s) = checksum s := by
  by_cases h : ∃ ds, Spells s ds
  · obtain ⟨ds, hds⟩ := h
    obtain ⟨ds', -, hspells, hlower⟩ := checksum_spells hds
    exact (checksum_eq_iff hspells hds).2 hlower
  · rw [checksum_of_not_spells (not_exists.1 h), checksum_of_not_spells (not_exists.1 h)]

end Replay.Address
