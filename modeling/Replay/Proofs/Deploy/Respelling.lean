/-
  Replay.Proofs.Deploy.Respelling — the spelling of an address leaves no trace in a book.

  A book enters each address by its checksum, and a checksum is its own checksum. So a
  record may have its addresses checksummed before it is entered, and the book and the
  fault are the same (`ofRecords_checksummed`): the name of a deployment does not depend on
  the address, and a fault names none. Records that are alike but for the case and the
  prefix of their addresses become one record that way.

  Proved here: `deploymentsOf_checksummed`, `ofRecords_checksummed`,
  `Record.Alike.checksummed_eq`, `checksum_canonical`.
-/

import Mathlib.Data.List.Forall2
import Replay.Proofs.Checksum
import Replay.Proofs.Deploy.Contents

namespace Replay.Deploy

open Text Address

/-- The same text, or two spellings of an address. -/
inductive Respelled : Text → Text → Prop
  | same (a : Text) : Respelled a a
  | spelled {a b ds es : Text} : Spells a ds → Spells b es → lower ds = lower es → Respelled a b

/-- Alike but for how the contract's address is spelled. -/
structure Transaction.Alike (t u : Transaction) : Prop where
  kind : t.kind = u.kind
  name : t.name = u.name
  arguments : t.arguments = u.arguments
  address : Option.Rel Respelled t.address u.address

def Record.Alike (r r' : Record) : Prop := List.Forall₂ Transaction.Alike r.transactions r'.transactions

def Transaction.checksummed (t : Transaction) : Transaction := { t with address := t.address.map checksum }

def Record.checksummed (r : Record) : Record := ⟨r.transactions.map Transaction.checksummed⟩

def Deployment.checksummed (d : Deployment) : Deployment := { d with address := checksum d.address }

variable {rename : Rename}

/-! ## Addresses checksummed beforehand -/

theorem deployment_checksummed (rename : Rename) (t : Transaction) :
    t.checksummed.deployment rename = (t.deployment rename).map Deployment.checksummed := by
  have hname : t.checksummed.logicalName rename = t.logicalName rename := rfl
  unfold Transaction.deployment
  rw [hname]
  cases t.logicalName rename with
  | error f => rfl
  | ok name =>
    rw [Transaction.checksummed]
    cases t.address <;> rfl

theorem deploymentsOf_checksummed (ts : List Transaction) :
    deploymentsOf rename (ts.map Transaction.checksummed) =
      ((deploymentsOf rename ts).1.map Deployment.checksummed, (deploymentsOf rename ts).2) := by
  induction ts with
  | nil => rfl
  | cons t ts ih =>
    have ht := deployment_checksummed rename t
    cases hd : t.deployment rename with
    | error f =>
      rw [hd] at ht
      rw [List.map_cons, deploymentsOf_cons_error ht, deploymentsOf_cons_error hd]
      rfl
    | ok d =>
      rw [hd] at ht
      rw [List.map_cons, deploymentsOf_cons_ok ht, deploymentsOf_cons_ok hd, ih]
      rfl

theorem creations_checksummed (rs : List Record) : (rs.map Record.checksummed).flatMap Record.creations =
    (rs.flatMap Record.creations).map Transaction.checksummed := by
  have hrecord : ∀ r : Record, r.checksummed.creations = r.creations.map Transaction.checksummed := fun r =>
    List.filter_map
  rw [List.flatMap_map, List.map_flatMap]
  exact congrArg (rs.flatMap ·) (funext hrecord)

theorem put_checksummed (b : Book) (d : Deployment) : b.put d.checksummed = b.put d := by
  rw [Book.put, Book.put, Deployment.checksummed, checksum_checksum]

theorem putAll_checksummed (b : Book) (ds : List Deployment) : b.putAll (ds.map Deployment.checksummed) = b.putAll ds := by
  rw [Book.putAll, Book.putAll, List.foldl_map]
  exact congrArg (fun f => ds.foldl f b) (funext₂ put_checksummed)

/-- It makes no difference to the book, nor to what goes wrong. -/
theorem ofRecords_checksummed (rs : List Record) :
    Book.ofRecords rename (rs.map Record.checksummed) = Book.ofRecords rename rs := by
  rw [Book.ofRecords, Book.ofRecords, extendAll_eq, extendAll_eq, creations_checksummed, deploymentsOf_checksummed]
  simp only [putAll_checksummed]

/-! ## Addresses spelled another way -/

theorem Respelled.checksum_eq {a b : Text} (h : Respelled a b) : checksum a = checksum b := by
  cases h with
  | same => rfl
  | spelled ha hb hlower => exact (checksum_eq_iff ha hb).2 hlower

theorem map_checksum_eq {a b : Option Text} (h : Option.Rel Respelled a b) :
    a.map checksum = b.map checksum := by
  cases h with
  | none => rfl
  | some hrespelled => exact congrArg some hrespelled.checksum_eq

theorem Transaction.Alike.checksummed_eq {t u : Transaction} (h : t.Alike u) : t.checksummed = u.checksummed := by
  rw [Transaction.checksummed, Transaction.checksummed, h.kind, h.name, h.arguments, map_checksum_eq h.address]

/-- Lists that are alike item by item are one list once each item is brought to its form. -/
theorem map_eq_of_forall₂ {α β : Type} {R : α → α → Prop} {f : α → β} {as bs : List α} (h : List.Forall₂ R as bs)
    (hf : ∀ a b, R a b → f a = f b) : as.map f = bs.map f := by
  have hmap := List.forall₂_map_left_iff.2 (List.forall₂_map_right_iff.2 (h.imp hf))
  rwa [List.forall₂_eq_eq_eq] at hmap

theorem Record.Alike.checksummed_eq {r r' : Record} (h : r.Alike r') : r.checksummed = r'.checksummed :=
  congrArg Record.mk (map_eq_of_forall₂ h fun _ _ => Transaction.Alike.checksummed_eq)

/-- A checksum is a normal form of the spellings of an address: it spells the same digits up to case, and two spellings
    have one form exactly if they agree up to case. Any other text stays as it is, apart from all of these. So records
    that differ in spellings only make the same book, or fail alike. -/
theorem checksum_canonical :
    (∀ s, checksum (checksum s) = checksum s) ∧
      (∀ s ds, Spells s ds → ∃ ds', checksum s = "0x".toList ++ ds' ∧ ds'.length = 40 ∧
        (∀ c ∈ ds', isHex c = true) ∧ lower ds' = lower ds) ∧
      (∀ s t ds es, Spells s ds → Spells t es → (checksum s = checksum t ↔ lower ds = lower es)) ∧
      (∀ s, (∀ ds, ¬ Spells s ds) → checksum s = s ∧ ∀ t es, Spells t es → checksum s ≠ checksum t) ∧
      ∀ rename rs rs', List.Forall₂ Record.Alike rs rs' → Book.ofRecords rename rs = Book.ofRecords rename rs' := by
  refine ⟨checksum_checksum, ?_, fun _ _ _ _ => checksum_eq_iff, ?_, ?_⟩
  · intro s ds h
    obtain ⟨ds', hds, hspells, hlower⟩ := checksum_spells h
    exact ⟨ds', hds, hspells.length, hspells.hex, hlower⟩
  · intro s h
    have hs := checksum_of_not_spells h
    refine ⟨hs, fun t es ht heq => ?_⟩
    obtain ⟨es', -, hspells, -⟩ := checksum_spells ht
    rw [← heq, hs] at hspells
    exact h es' hspells
  · intro rename rs rs' h
    have hrecords := map_eq_of_forall₂ h fun _ _ => Record.Alike.checksummed_eq
    rw [← ofRecords_checksummed rs, hrecords, ofRecords_checksummed]

end Replay.Deploy
