/-
  Replay.Proofs.Deploy.TokenNames — which deployments of the renamed contract go by one name.

  Such a deployment goes by the plain text of an argument: a string stands for itself,
  anything else for its text. Texts are read back, so different exact values that are not
  strings have different texts, and strings are their own names. What is left is a string
  against something else: the two collide exactly if the string is that other's text, as
  the string `18` and the number do. The book cannot tell these two apart; all others have
  names of their own.

  Proved here: `plainText_eq_iff`, `mem_keys_of_creation`, `names_collide_iff`.
-/

import Replay.Proofs.Deploy.Faults
import Replay.Proofs.Json.RoundTrip

namespace Replay

namespace Json

open Text

def Value.IsString (v : Value) : Prop := ∃ s, v = .string s

theorem plainText_of_not_string {v : Value} (h : ¬ v.IsString) : plainText v = compact v := by
  cases v with
  | string s => exact absurd ⟨s, rfl⟩ h
  | _ => rfl

theorem eq_string_of_plainText {a b : Value} (h : plainText a = plainText b) (ha : a.IsString) (hb : ¬ b.IsString) :
    a = .string (compact b) := by
  obtain ⟨s, rfl⟩ := ha
  rw [plainText_of_not_string hb] at h
  exact congrArg Value.string h

theorem plainText_ne {a b : Value} (ha : a.Exact) (hb : b.Exact) (hne : a ≠ b) (h : a.IsString ↔ b.IsString) :
    plainText a ≠ plainText b := by
  intro heq
  by_cases hs : a.IsString
  · obtain ⟨t, rfl⟩ := h.1 hs
    obtain ⟨s, rfl⟩ := hs
    exact hne (congrArg Value.string heq)
  · rw [plainText_of_not_string hs, plainText_of_not_string fun ht => hs (h.2 ht)] at heq
    exact hne (compact_injective ha hb heq)

theorem plainText_eq_iff {a b : Value} (ha : a.Exact) (hb : b.Exact) (hne : a ≠ b) : plainText a = plainText b ↔
    (a = .string (compact b) ∧ ¬ b.IsString) ∨ (b = .string (compact a) ∧ ¬ a.IsString) := by
  constructor
  · intro h
    by_cases hkind : a.IsString ↔ b.IsString
    · exact absurd h (plainText_ne ha hb hne hkind)
    · by_cases hs : b.IsString
      · have hno : ¬ a.IsString := fun hsa => hkind (iff_of_true hsa hs)
        exact .inr ⟨eq_string_of_plainText h.symm hs hno, hno⟩
      · have hyes : a.IsString := Classical.not_not.1 fun hsa => hkind (iff_of_false hsa hs)
        exact .inl ⟨eq_string_of_plainText h hyes hs, hs⟩
  · rintro (⟨rfl, hs⟩ | ⟨rfl, hs⟩)
    · exact (plainText_of_not_string hs).symm
    · exact plainText_of_not_string hs

end Json

namespace Deploy

open Text Json

/-- A deployment of the renamed contract, and the argument it goes by. -/
structure Transaction.GoesBy (rename : Rename) (t : Transaction) (v : Value) : Prop where
  name : t.name = some rename.contract
  argument : ∃ arguments, t.arguments = some arguments ∧ arguments[rename.index]? = some v

theorem Transaction.GoesBy.logicalName_eq {rename : Rename} {t : Transaction} {v : Value} (h : t.GoesBy rename v) :
    t.logicalName rename = .ok (plainText v) := by
  obtain ⟨arguments, ha, hv⟩ := h.argument
  exact (Transaction.Named.argument h.name ha hv).logicalName_eq

/-- The names of all creations are keys of the book. -/
theorem mem_keys_of_creation {rename : Rename} {rs : List Record} {b : Book} {t : Transaction} {name : Text}
    (hb : Book.ofRecords rename rs = .ok b) (ht : t ∈ rs.flatMap Record.creations)
    (hname : t.logicalName rename = .ok name) : name ∈ b.entries.map (·.1) := by
  obtain ⟨ds, hds, rfl⟩ := ofRecords_eq_ok_iff.1 hb
  have hmem : (t.logicalName rename, t.address) ∈ ds.map fun d => (.ok d.name, some d.address) := by
    rw [← deploymentsOf_eq_iff.1 hds]
    exact List.mem_map_of_mem ht
  obtain ⟨d, hd, heq⟩ := List.mem_map.1 hmem
  rw [hname] at heq
  rw [keys_putAll, List.mem_eraseDups, List.mem_map]
  exact ⟨d, hd, Except.ok.inj (Prod.mk.inj heq).1⟩

/-- Different values collide exactly if one is a string that spells the other. So two deployments of the renamed
    contract that go by different strings, or by different values that are no strings, have keys of their own. -/
theorem names_collide_iff {a b : Value} (ha : a.Exact) (hb : b.Exact) (hne : a ≠ b) :
    (plainText a = plainText b ↔
        (a = .string (compact b) ∧ ¬ b.IsString) ∨ (b = .string (compact a) ∧ ¬ a.IsString)) ∧
      ∀ (rename : Rename) (t u : Transaction), t.GoesBy rename a → u.GoesBy rename b → (a.IsString ↔ b.IsString) →
        ∃ m n, t.logicalName rename = .ok m ∧ u.logicalName rename = .ok n ∧ m ≠ n ∧
          ∀ rs book, Book.ofRecords rename rs = .ok book → t ∈ rs.flatMap Record.creations →
            u ∈ rs.flatMap Record.creations → m ∈ book.entries.map (·.1) ∧ n ∈ book.entries.map (·.1) := by
  refine ⟨plainText_eq_iff ha hb hne, ?_⟩
  intro rename t u ht hu hkind
  refine ⟨_, _, ht.logicalName_eq, hu.logicalName_eq, plainText_ne ha hb hne hkind, ?_⟩
  intro rs book hbook htmem humem
  exact ⟨mem_keys_of_creation hbook htmem ht.logicalName_eq, mem_keys_of_creation hbook humem hu.logicalName_eq⟩

/-- A deployment of a token whose second constructor argument is its symbol. -/
def tokenWith (symbol : Value) : Transaction :=
  ⟨creation, some "TestnetToken".toList, some "0x0".toList, some [.null, symbol]⟩

theorem names_collide_iff_of_number :
    plainText (.string "18".toList) = plainText (.number (.integer 18)) ∧
      ∃ m n book, m ≠ n ∧
        Book.ofRecords ⟨"TestnetToken".toList, 1⟩ [⟨[tokenWith (.array []), tokenWith .null]⟩] = .ok book ∧
        m ∈ book.entries.map (·.1) ∧ n ∈ book.entries.map (·.1) := by
  constructor
  · have hnumber : (Value.number (.integer 18)).Exact := .integer (by decide) (by decide)
    have htext : "18".toList = compact (.number (.integer 18)) := by decide
    have hcollide := (names_collide_iff (.string "18".toList) hnumber nofun).1
    exact hcollide.2 (.inl ⟨congrArg Value.string htext, nofun⟩)
  · have hkind : (Value.array []).IsString ↔ Value.null.IsString := iff_of_false nofun nofun
    have hempty : (Value.array []).Exact := .array (by simp)
    obtain ⟨m, n, -, -, hne, hkeys⟩ := (names_collide_iff hempty .null nofun).2 ⟨"TestnetToken".toList, 1⟩
      (tokenWith (.array [])) (tokenWith .null) ⟨rfl, _, rfl, rfl⟩ ⟨rfl, _, rfl, rfl⟩ hkind
    have hbook : Book.ofRecords ⟨"TestnetToken".toList, 1⟩ [⟨[tokenWith (.array []), tokenWith .null]⟩] =
        .ok ⟨[("[]".toList, "0x0".toList), ("null".toList, "0x0".toList)]⟩ := by rfl
    exact ⟨m, n, _, hne, hbook, hkeys _ _ hbook (by simp [Record.creations, Transaction.isCreation, tokenWith])
      (by simp [Record.creations, Transaction.isCreation, tokenWith])⟩

end Deploy

end Replay
