/-
  Replay.Proofs.Deploy.Contents — what an address book holds.

  Records are entered one after the other, but the book and what goes wrong depend on the
  one sequence of all their creations (`extendAll_eq`). All of them are entered exactly if
  each is `Complete`. The names of the book are then those of the deployments in the order
  in which they first come up, and the address of a name is that of its last deployment.

  Proved here: `deploymentsOf_eq_iff`, `extendAll_eq`, `keys_putAll`, `lookup_putAll`,
  `ofRecords_contents`.
-/

import Replay.Deploy.Book

namespace Replay.Deploy

open Text

/-- A transaction with all that its deployment needs. -/
def Transaction.Complete (rename : Rename) (t : Transaction) : Prop :=
  ∃ contract, t.name = some contract ∧
    (contract = rename.contract → ∃ arguments v, t.arguments = some arguments ∧ arguments[rename.index]? = some v) ∧
    ∃ address, t.address = some address

variable {rename : Rename}

/-! ## Deployments -/

theorem deployment_eq_ok_iff {t : Transaction} {d : Deployment} :
    t.deployment rename = .ok d ↔ t.logicalName rename = .ok d.name ∧ t.address = some d.address := by
  unfold Transaction.deployment
  cases hn : t.logicalName rename with
  | error f => simp
  | ok name =>
    cases ha : t.address with
    | none => simp
    | some address =>
      obtain ⟨n, a⟩ := d
      simp

theorem exists_logicalName_iff {t : Transaction} : (∃ name, t.logicalName rename = .ok name) ↔
    ∃ contract, t.name = some contract ∧ (contract = rename.contract →
      ∃ arguments v, t.arguments = some arguments ∧ arguments[rename.index]? = some v) := by
  unfold Transaction.logicalName
  cases hn : t.name with
  | none => simp
  | some contract =>
    by_cases hc : contract = rename.contract
    · cases ha : t.arguments with
      | none => simp [hc]
      | some arguments => cases hv : arguments[rename.index]? <;> simp [hc, hv]
    · simp [hc]

theorem complete_iff {t : Transaction} : t.Complete rename ↔ ∃ d, t.deployment rename = .ok d := by
  constructor
  · rintro ⟨contract, hn, harg, address, ha⟩
    obtain ⟨name, hname⟩ := exists_logicalName_iff.2 ⟨contract, hn, harg⟩
    exact ⟨⟨name, address⟩, deployment_eq_ok_iff.2 ⟨hname, ha⟩⟩
  · rintro ⟨d, hd⟩
    obtain ⟨hname, ha⟩ := deployment_eq_ok_iff.1 hd
    obtain ⟨contract, hn, harg⟩ := exists_logicalName_iff.1 ⟨d.name, hname⟩
    exact ⟨contract, hn, harg, d.address, ha⟩

theorem deploymentsOf_cons_ok {t : Transaction} {ts : List Transaction} {d : Deployment}
    (h : t.deployment rename = .ok d) : deploymentsOf rename (t :: ts) =
      (d :: (deploymentsOf rename ts).1, (deploymentsOf rename ts).2) := by
  rw [deploymentsOf, h]

theorem deploymentsOf_cons_error {t : Transaction} {ts : List Transaction} {f : Fault}
    (h : t.deployment rename = .error f) : deploymentsOf rename (t :: ts) = ([], some f) := by
  rw [deploymentsOf, h]

/-- Without a fault, every transaction has given its name and its address. -/
theorem deploymentsOf_eq_iff {ts : List Transaction} {ds : List Deployment} : deploymentsOf rename ts = (ds, none) ↔
    ts.map (fun t => (t.logicalName rename, t.address)) = ds.map (fun d => (.ok d.name, some d.address)) := by
  induction ts generalizing ds with
  | nil => cases ds <;> simp [deploymentsOf]
  | cons t ts ih =>
    cases ds with
    | nil => cases ht : t.deployment rename <;> simp [deploymentsOf, ht]
    | cons e ds =>
      have hhead : (t.logicalName rename, t.address) = (.ok e.name, some e.address) ↔ t.deployment rename = .ok e := by
        rw [deployment_eq_ok_iff, Prod.mk.injEq]
      rw [List.map_cons, List.map_cons, List.cons.injEq, hhead, ← ih]
      cases ht : t.deployment rename with
      | error f => simp [deploymentsOf_cons_error ht]
      | ok d => simp [deploymentsOf_cons_ok ht, Prod.ext_iff, and_assoc]

theorem fault_eq_none_iff {ts : List Transaction} :
    (deploymentsOf rename ts).2 = none ↔ ∀ t ∈ ts, t.Complete rename := by
  induction ts with
  | nil => simp [deploymentsOf]
  | cons t ts ih =>
    rw [List.forall_mem_cons, complete_iff]
    cases ht : t.deployment rename with
    | error f => simp [deploymentsOf_cons_error ht]
    | ok d => simp [deploymentsOf_cons_ok ht, ih]

theorem deploymentsOf_append_ok {ts us : List Transaction} (h : (deploymentsOf rename ts).2 = none) :
    deploymentsOf rename (ts ++ us) =
      ((deploymentsOf rename ts).1 ++ (deploymentsOf rename us).1, (deploymentsOf rename us).2) := by
  induction ts with
  | nil => rfl
  | cons t ts ih =>
    cases ht : t.deployment rename with
    | error f => simp [deploymentsOf_cons_error ht] at h
    | ok d =>
      rw [deploymentsOf_cons_ok ht] at h
      rw [List.cons_append, deploymentsOf_cons_ok ht, deploymentsOf_cons_ok ht, ih h]
      rfl

theorem deploymentsOf_append_error {ts us : List Transaction} {f : Fault} (h : (deploymentsOf rename ts).2 = some f) :
    deploymentsOf rename (ts ++ us) = deploymentsOf rename ts := by
  induction ts with
  | nil => cases h
  | cons t ts ih =>
    cases ht : t.deployment rename with
    | error g => rw [List.cons_append, deploymentsOf_cons_error ht, deploymentsOf_cons_error ht]
    | ok d =>
      rw [deploymentsOf_cons_ok ht] at h
      rw [List.cons_append, deploymentsOf_cons_ok ht, deploymentsOf_cons_ok ht, ih h]

/-! ## Records -/

theorem Book.putAll_append (b : Book) (ds es : List Deployment) : b.putAll (ds ++ es) = (b.putAll ds).putAll es :=
  List.foldl_append

/-- The records are entered as the one sequence of their creations. -/
theorem extendAll_eq (b : Book) (rs : List Record) : b.extendAll rename rs =
    match (deploymentsOf rename (rs.flatMap Record.creations)).2 with
    | none => .ok (b.putAll (deploymentsOf rename (rs.flatMap Record.creations)).1)
    | some f => .error f := by
  induction rs generalizing b with
  | nil => rfl
  | cons r rs ih =>
    rw [Book.extendAll, Book.extend, Record.deployments, List.flatMap_cons]
    cases hf : (deploymentsOf rename r.creations).2 with
    | some f => rw [deploymentsOf_append_error hf, hf]
    | none => simp only [deploymentsOf_append_ok hf, ih, Book.putAll_append]

theorem ofRecords_eq_ok_iff {rs : List Record} {b : Book} : Book.ofRecords rename rs = .ok b ↔
    ∃ ds, deploymentsOf rename (rs.flatMap Record.creations) = (ds, none) ∧ b = Book.empty.putAll ds := by
  rw [Book.ofRecords, extendAll_eq]
  obtain ⟨ds, o⟩ := deploymentsOf rename (rs.flatMap Record.creations)
  cases o <;> simp [eq_comm]

theorem exists_book_iff {rs : List Record} : (∃ b, Book.ofRecords rename rs = .ok b) ↔
    ∀ t ∈ rs.flatMap Record.creations, t.Complete rename := by
  rw [← fault_eq_none_iff]
  constructor
  · rintro ⟨b, hb⟩
    obtain ⟨ds, hds, -⟩ := ofRecords_eq_ok_iff.1 hb
    rw [hds]
  · intro h
    exact ⟨_, ofRecords_eq_ok_iff.2 ⟨_, Prod.ext rfl h, rfl⟩⟩

/-! ## Names -/

theorem eraseDups_concat (ns : List Text) (n : Text) :
    (ns ++ [n]).eraseDups = if n ∈ ns.eraseDups then ns.eraseDups else ns.eraseDups ++ [n] := by
  rw [List.eraseDups_append]
  by_cases h : n ∈ ns
  · simp [List.removeAll, h]
  · simp [List.removeAll, h, List.eraseDups_cons]

/-- The names stand in the order in which they first come up. -/
theorem keys_putAll (ds : List Deployment) :
    (Book.empty.putAll ds).entries.map (·.1) = (ds.map (·.name)).eraseDups := by
  rw [← List.reverse_reverse ds]
  induction ds.reverse with
  | nil => rfl
  | cons d ds ih =>
    rw [List.reverse_cons, Book.putAll_append, List.map_append, List.map_singleton, eraseDups_concat, ← ih]
    exact put_keys (Book.empty.putAll ds.reverse) d

theorem nodup_keys_putAll {b : Book} (h : (b.entries.map (·.1)).Nodup) (ds : List Deployment) :
    ((b.putAll ds).entries.map (·.1)).Nodup := by
  induction ds generalizing b with
  | nil => exact h
  | cons d ds ih =>
    refine ih (b := b.put d) ?_
    rw [put_keys]
    split
    · exact h
    · next hd =>
      refine List.nodup_append.2 ⟨h, by simp, ?_⟩
      intro n hn m hm
      rw [List.mem_singleton.1 hm]
      rintro rfl
      exact hd hn

/-! ## Addresses -/

theorem lookup_putAll_of_not_mem (b : Book) {ds : List Deployment} {name : Text} (h : name ∉ ds.map (·.name)) :
    (b.putAll ds).lookup name = b.lookup name := by
  induction ds generalizing b with
  | nil => rfl
  | cons d ds ih =>
    simp only [List.map_cons, List.mem_cons, not_or] at h
    have hrest := ih (b.put d) h.2
    rw [lookup_put, if_neg h.1] at hrest
    exact hrest

/-- The last deployment of a name gives its address. -/
theorem lookup_putAll (b : Book) (before : List Deployment) {d : Deployment} {after : List Deployment}
    (h : d.name ∉ after.map (·.name)) :
    (b.putAll (before ++ d :: after)).lookup d.name = some (Address.checksum d.address) := by
  rw [Book.putAll_append]
  refine (lookup_putAll_of_not_mem ((b.putAll before).put d) h).trans ?_
  rw [lookup_put, if_pos rfl]

theorem mem_of_lookupIn {name address : Text} {es : List (Text × Text)} (h : lookupIn name es = some address) :
    (name, address) ∈ es := by
  induction es with
  | nil => cases h
  | cons e es ih =>
    obtain ⟨n, a⟩ := e
    simp only [lookupIn] at h
    split at h
    · next hn =>
      obtain rfl := Option.some.inj h
      rw [hn]
      exact List.mem_cons_self
    · exact List.mem_cons_of_mem _ (ih h)

/-! ## Contents -/

theorem mem_creations_iff {rs : List Record} {t : Transaction} :
    t ∈ rs.flatMap Record.creations ↔ ∃ r ∈ rs, t ∈ r.transactions ∧ t.kind = "CREATE".toList := by
  have hkind : "CREATE".toList = creation := by decide
  simp only [hkind, List.mem_flatMap, Record.creations, List.mem_filter, Transaction.isCreation, decide_eq_true_eq]

/-- The records are entered exactly if all their creations are complete. Then each name has the place of its first
    deployment and the address of its last, and nothing but the creations counts. -/
theorem ofRecords_contents (rename : Rename) (rs : List Record) :
    ((∃ b, Book.ofRecords rename rs = .ok b) ↔
        ∀ r ∈ rs, ∀ t ∈ r.transactions, t.kind = "CREATE".toList → t.Complete rename) ∧
      (∀ b, Book.ofRecords rename rs = .ok b → ∃ ds : List Deployment,
        (rs.flatMap Record.creations).map (fun t => (t.logicalName rename, t.address)) =
            ds.map (fun d => (.ok d.name, some d.address)) ∧
          b.entries.map (·.1) = (ds.map (·.name)).eraseDups ∧ (b.entries.map (·.1)).Nodup ∧
          ∀ before d after, ds = before ++ d :: after → d.name ∉ after.map (·.name) →
            (d.name, Address.checksum d.address) ∈ b.entries) ∧
      ∀ rs', rs'.flatMap Record.creations = rs.flatMap Record.creations →
        Book.ofRecords rename rs' = Book.ofRecords rename rs := by
  refine ⟨?_, ?_, ?_⟩
  · simp only [exists_book_iff, mem_creations_iff]
    constructor
    · intro h r hr t ht hk
      exact h t ⟨r, hr, ht, hk⟩
    · rintro h t ⟨r, hr, ht, hk⟩
      exact h r hr t ht hk
  · intro b hb
    obtain ⟨ds, hds, rfl⟩ := ofRecords_eq_ok_iff.1 hb
    refine ⟨ds, deploymentsOf_eq_iff.1 hds, keys_putAll ds, nodup_keys_putAll (b := Book.empty) .nil ds, ?_⟩
    rintro before d after rfl hlast
    exact mem_of_lookupIn (lookup_putAll Book.empty before hlast)
  · intro rs' h
    rw [Book.ofRecords, Book.ofRecords, extendAll_eq, extendAll_eq, h]

end Replay.Deploy
