/-
  Replay.Proofs.Deploy.Faults — where entering a record ends, and what is in the book then.

  A record is entered transaction by transaction: one that creates nothing is passed over,
  a complete one is put into the book, and the first that lacks something ends it. What a
  transaction `Lacks` is asked for in a fixed order, first its contract's name, then the
  argument that stands in for the name, then its address, so a transaction has one fault at
  most. What was entered before the fault stays: the book is the one that the transactions
  in front of it make, and neither the faulty one nor any behind it has left a trace.

  Records that are entered one after the other fail like the one record of all their
  transactions.

  Proved here: `named_or_lacks`, `lacks_iff`, `extend_append`, `extend_fails_iff`, `first_fault_ends`.
-/

import Replay.Proofs.Deploy.Contents

namespace Replay.Deploy

open Text

/-- The name a deployment goes by: that of its contract, or the argument that stands in for it. -/
inductive Transaction.Named (rename : Rename) (t : Transaction) : Text → Prop
  | contract {contract : Text} : t.name = some contract → contract ≠ rename.contract → Named rename t contract
  | argument {arguments : List Json.Value} {v : Json.Value} : t.name = some rename.contract →
      t.arguments = some arguments → arguments[rename.index]? = some v → Named rename t (Json.plainText v)

/-- What is wrong with a transaction that is to be a deployment. -/
inductive Transaction.Lacks (rename : Rename) (t : Transaction) : Fault → Prop
  | name : t.name = none → Lacks rename t .unnamed
  | argument : t.name = some rename.contract →
      (∀ arguments, t.arguments = some arguments → arguments[rename.index]? = none) →
      Lacks rename t (.noArgument rename.contract rename.index)
  | address {name : Text} : t.Named rename name → t.address = none → Lacks rename t (.noAddress name)

/-- The creations in front of a transaction are complete, and it is one that lacks something. -/
structure FirstFault (rename : Rename) (ts before : List Transaction) (t : Transaction) (fault : Fault) : Prop where
  parts : ∃ after, ts = before ++ t :: after
  created : t.kind = creation
  lacks : t.Lacks rename fault
  complete : ∀ u ∈ before, u.kind = creation → u.Complete rename

variable {rename : Rename} {t : Transaction} {ts : List Transaction} {fault : Fault} {b b' : Book}

/-! ## One transaction -/

theorem Transaction.Named.logicalName_eq {name : Text} (h : t.Named rename name) :
    t.logicalName rename = .ok name := by
  unfold Transaction.logicalName
  cases h with
  | contract hn hne => simp [hn, hne]
  | argument hn ha hv => simp [hn, ha, hv]

theorem Transaction.Lacks.deployment_eq (h : t.Lacks rename fault) : t.deployment rename = .error fault := by
  unfold Transaction.deployment
  cases h with
  | name hn => simp [Transaction.logicalName, hn]
  | argument hn ha =>
    have hv : (t.arguments.getD [])[rename.index]? = none := by
      cases hs : t.arguments with
      | none => rfl
      | some arguments => exact ha arguments hs
    simp only [Transaction.logicalName, hn, if_true, hv]
  | address hn ha => rw [hn.logicalName_eq, ha]

/-- A transaction has all that its deployment needs, or there is something that it lacks. -/
theorem named_or_lacks (rename : Rename) (t : Transaction) :
    (∃ name address, t.Named rename name ∧ t.address = some address) ∨ ∃ fault, t.Lacks rename fault := by
  have hnamed : (∃ name, t.Named rename name) ∨ ∃ fault, t.Lacks rename fault := by
    cases hn : t.name with
    | none => exact .inr ⟨_, .name hn⟩
    | some contract =>
      by_cases hc : contract = rename.contract
      · subst hc
        by_cases hv : ∃ arguments v, t.arguments = some arguments ∧ arguments[rename.index]? = some v
        · obtain ⟨arguments, v, ha, hv⟩ := hv
          exact .inl ⟨_, .argument hn ha hv⟩
        · refine .inr ⟨_, .argument hn fun arguments ha => ?_⟩
          exact Option.eq_none_iff_forall_ne_some.2 fun v h => hv ⟨arguments, v, ha, h⟩
      · exact .inl ⟨_, .contract hn hc⟩
  rcases hnamed with ⟨name, hname⟩ | hlacks
  · cases ha : t.address with
    | none => exact .inr ⟨_, .address hname ha⟩
    | some address => exact .inl ⟨name, address, hname, rfl⟩
  · exact .inr hlacks

theorem lacks_iff : t.Lacks rename fault ↔ t.deployment rename = .error fault := by
  constructor
  · exact Transaction.Lacks.deployment_eq
  · intro h
    rcases named_or_lacks rename t with ⟨name, address, hname, ha⟩ | ⟨g, hg⟩
    · rw [Transaction.deployment, hname.logicalName_eq, ha] at h
      cases h
    · obtain rfl : g = fault := Except.error.inj (hg.deployment_eq.symm.trans h)
      exact hg

/-! ## Step by step -/

theorem extend_skip (h : t.kind ≠ creation) (b : Book) (ts : List Transaction) :
    b.extend rename ⟨t :: ts⟩ = b.extend rename ⟨ts⟩ := by
  have hcreations : Record.creations ⟨t :: ts⟩ = Record.creations ⟨ts⟩ :=
    List.filter_cons_of_neg (by simpa [Transaction.isCreation] using h)
  unfold Book.extend Record.deployments
  rw [hcreations]

theorem creations_cons (h : t.kind = creation) (ts : List Transaction) :
    Record.creations ⟨t :: ts⟩ = t :: Record.creations ⟨ts⟩ :=
  List.filter_cons_of_pos (by simpa [Transaction.isCreation] using h)

theorem extend_put {d : Deployment} (h : t.kind = creation) (hd : t.deployment rename = .ok d) (b : Book)
    (ts : List Transaction) : b.extend rename ⟨t :: ts⟩ = (b.put d).extend rename ⟨ts⟩ := by
  unfold Book.extend Record.deployments
  rw [creations_cons h, deploymentsOf_cons_ok hd]
  rfl

theorem extend_stop (h : t.kind = creation) (hd : t.deployment rename = .error fault) (b : Book)
    (ts : List Transaction) : b.extend rename ⟨t :: ts⟩ = (b, some fault) := by
  unfold Book.extend Record.deployments
  rw [creations_cons h, deploymentsOf_cons_error hd]
  rfl

/-! ## A whole record -/

/-- A record that is entered without a fault is left behind. -/
theorem extend_append (h : b.extend rename ⟨ts⟩ = (b', none)) (us : List Transaction) :
    b.extend rename ⟨ts ++ us⟩ = b'.extend rename ⟨us⟩ := by
  have hcreations : Record.creations ⟨ts ++ us⟩ = Record.creations ⟨ts⟩ ++ Record.creations ⟨us⟩ :=
    List.filter_append ts us
  unfold Book.extend Record.deployments at h ⊢
  obtain ⟨rfl, hnone⟩ := Prod.mk.inj h
  rw [hcreations, deploymentsOf_append_ok hnone, Book.putAll_append]

theorem fault_of_complete (h : ∀ u ∈ ts, u.kind = creation → u.Complete rename) (b : Book) :
    (b.extend rename ⟨ts⟩).2 = none := by
  refine fault_eq_none_iff.2 fun u hu => ?_
  obtain ⟨hmem, hcreated⟩ := List.mem_filter.1 hu
  exact h u hmem (of_decide_eq_true hcreated)

theorem FirstFault.cons {before : List Transaction} {u : Transaction} (h : FirstFault rename ts before t fault)
    (hu : u.kind = creation → u.Complete rename) : FirstFault rename (u :: ts) (u :: before) t fault := by
  obtain ⟨after, hparts⟩ := h.parts
  exact ⟨⟨after, by rw [hparts]; rfl⟩, h.created, h.lacks, List.forall_mem_cons.2 ⟨hu, h.complete⟩⟩

/-- A record fails with the fault of its first incomplete creation, and leaves what came before that one. -/
theorem extend_fails_iff : b.extend rename ⟨ts⟩ = (b', some fault) ↔
    ∃ before t, FirstFault rename ts before t fault ∧ b.extend rename ⟨before⟩ = (b', none) := by
  constructor
  · intro h
    -- over all books, since what is complete has changed the book that the rest is entered in
    induction ts generalizing b with
    | nil => cases h
    | cons u ts ih =>
      by_cases hk : u.kind = creation
      · cases hd : u.deployment rename with
        | error f =>
          rw [extend_stop hk hd] at h
          cases h
          exact ⟨[], u, ⟨⟨ts, rfl⟩, hk, lacks_iff.2 hd, by simp⟩, rfl⟩
        | ok d =>
          rw [extend_put hk hd] at h
          obtain ⟨before, t, hfirst, hbefore⟩ := ih h
          have hcomplete : u.Complete rename := complete_iff.2 ⟨d, hd⟩
          exact ⟨u :: before, t, hfirst.cons fun _ => hcomplete, by rw [extend_put hk hd, hbefore]⟩
      · rw [extend_skip hk] at h
        obtain ⟨before, t, hfirst, hbefore⟩ := ih h
        exact ⟨u :: before, t, hfirst.cons fun h => absurd h hk, by rw [extend_skip hk, hbefore]⟩
  · intro h
    obtain ⟨before, t, hfirst, hbefore⟩ := h
    obtain ⟨after, rfl⟩ := hfirst.parts
    rw [extend_append hbefore, extend_stop hfirst.created (lacks_iff.1 hfirst.lacks)]

/-! ## Records one after the other -/

/-- Records fail like the one record of all their transactions. -/
theorem extendAll_eq_error_iff {rs : List Record} : b.extendAll rename rs = .error fault ↔
    ∃ b', b.extend rename ⟨rs.flatMap Record.transactions⟩ = (b', some fault) := by
  have hcreations : Record.creations ⟨rs.flatMap Record.transactions⟩ = rs.flatMap Record.creations :=
    List.filter_flatMap
  rw [extendAll_eq]
  unfold Book.extend Record.deployments
  rw [hcreations]
  cases (deploymentsOf rename (rs.flatMap Record.creations)).2 <;> simp

/-- Entering a record fails exactly at its first incomplete creation, with what that one lacks, and the book is then as
    if the record ended in front of it. Records fail exactly at the first incomplete creation of all. -/
theorem first_fault_ends (rename : Rename) :
    (∀ (b : Book) (r : Record) (b' : Book) (fault : Fault), b.extend rename r = (b', some fault) ↔
        ∃ before t, FirstFault rename r.transactions before t fault ∧
          b.extend rename ⟨before⟩ = (b', none)) ∧
      ∀ (rs : List Record) (fault : Fault), Book.ofRecords rename rs = .error fault ↔
        ∃ before t, FirstFault rename (rs.flatMap Record.transactions) before t fault := by
  refine ⟨fun b r b' fault => extend_fails_iff, fun rs fault => ?_⟩
  rw [Book.ofRecords, extendAll_eq_error_iff]
  constructor
  · intro h
    obtain ⟨b', h⟩ := h
    obtain ⟨before, t, hfirst, -⟩ := extend_fails_iff.1 h
    exact ⟨before, t, hfirst⟩
  · intro h
    obtain ⟨before, t, hfirst⟩ := h
    have hbefore := fault_of_complete hfirst.complete Book.empty
    exact ⟨_, extend_fails_iff.2 ⟨before, t, hfirst, Prod.ext rfl hbefore⟩⟩

end Replay.Deploy
