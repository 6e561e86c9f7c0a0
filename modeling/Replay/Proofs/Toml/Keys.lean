/-
  Replay.Proofs.Toml.Keys — no table of a document has a key twice.

  Everything that builds up a document changes what stands under one key, or adds a key that
  was not there (`alter_cases`). So each step keeps every table, at any depth, free of
  repeated keys, and a text that is read gives a document of this kind. In such a table a
  key stands for one value wherever it stands, so looking it up does not depend on the order
  of the entries.

  Proved here: `lookup_perm`, `lookup_erase`, `keeps_alter`, `Keeps.under`, `document_of_parse`.
-/

import Replay.Toml.Reader
import Replay.Proofs.Success

namespace Replay.Toml

open Text

def keys (es : Entries) : List Text := es.map (·.1)

/-- No table in the value has a key twice. -/
inductive Value.Keyed : Value → Prop
  | string (s : Text) : Keyed (.string s)
  | integer (i : Int) : Keyed (.integer i)
  | float (x : Float) : Keyed (.float x)
  | boolean (b : Bool) : Keyed (.boolean b)
  | datetime : Keyed .datetime
  | array {vs : List Value} : (∀ v ∈ vs, v.Keyed) → Keyed (.array vs)
  | table {es : Entries} (form : Form) : (keys es).Nodup → (∀ e ∈ es, e.2.Keyed) → Keyed (.table form es)
  | tables {ts : List Entries} : (∀ es ∈ ts, (Value.table .header es).Keyed) → Keyed (.tables ts)

/-- A table without a repeated key, itself and all below it. -/
structure Document (es : Entries) : Prop where
  nodup : (keys es).Nodup
  values : ∀ e ∈ es, e.2.Keyed

variable {α : Type} {key k : Text} {v w : Value} {es es' : Entries}

theorem keyed_table_iff {form : Form} : (Value.table form es).Keyed ↔ Document es := by
  constructor
  · intro h
    cases h with
    | table _ hn hv => exact ⟨hn, hv⟩
  · intro h
    exact .table form h.nodup h.values

theorem keyed_tables_iff {ts : List Entries} : (Value.tables ts).Keyed ↔ ∀ es ∈ ts, Document es := by
  constructor
  · intro h es hes
    cases h with
    | tables h => exact keyed_table_iff.1 (h es hes)
  · intro h
    exact .tables fun es hes => keyed_table_iff.2 (h es hes)

theorem keyed_array_iff {vs : List Value} : (Value.array vs).Keyed ↔ ∀ v ∈ vs, v.Keyed := by
  constructor
  · intro h
    cases h with
    | array h => exact h
  · exact .array

theorem forall_mem_replace {β : Type} {P : β → Prop} {front back : List β} {x y : β}
    (h : ∀ z ∈ front ++ x :: back, P z) (hy : P y) : ∀ z ∈ front ++ y :: back, P z := by
  intro z hz
  rcases List.mem_append.1 hz with hz | hz
  · exact h z (List.mem_append_left _ hz)
  · rcases List.mem_cons.1 hz with rfl | hz
    · exact hy
    · exact h z (by simp [hz])

theorem document_nil : Document [] := ⟨List.nodup_nil, by simp⟩

/-! ## Looking up -/

theorem lookup_eq_none_iff : lookup key es = none ↔ key ∉ keys es := by
  induction es with
  | nil => simp [lookup, keys]
  | cons e es ih =>
    obtain ⟨k, v⟩ := e
    by_cases h : k = key
    · simp [lookup, keys, h]
    · simp [lookup, keys, h, Ne.symm h, ih]

theorem mem_of_lookup (h : lookup key es = some v) : (key, v) ∈ es := by
  induction es with
  | nil => cases h
  | cons e es ih =>
    obtain ⟨k, w⟩ := e
    rw [lookup] at h
    split at h
    · next hk =>
      obtain rfl := Option.some.inj h
      exact hk ▸ List.mem_cons_self
    · exact List.mem_cons_of_mem _ (ih h)

theorem lookup_of_mem (hn : (keys es).Nodup) (h : (key, v) ∈ es) : lookup key es = some v := by
  induction es with
  | nil => cases h
  | cons e es ih =>
    obtain ⟨hne, hn⟩ := List.nodup_cons.1 hn
    rcases List.mem_cons.1 h with rfl | h
    · simp [lookup]
    · have hk : e.1 ≠ key := by
        intro he
        exact hne (List.mem_map.2 ⟨_, h, he.symm⟩)
      rw [lookup, if_neg hk, ih hn h]

theorem lookup_append (front : Entries) : lookup key (front ++ es) = (lookup key front).or (lookup key es) := by
  induction front with
  | nil => rfl
  | cons e front ih =>
    rw [List.cons_append, lookup, lookup]
    split
    · rfl
    · exact ih

theorem keys_replace {front back : Entries} :
    keys (front ++ (key, w) :: back) = keys (front ++ (key, v) :: back) := by
  simp [keys]

theorem erase_cons (e : Text × Value) :
    erase key (e :: es) = if e.1 = key then erase key es else e :: erase key es := by
  by_cases h : e.1 = key <;> simp [erase, h]

theorem lookup_erase : lookup k (erase key es) = if k = key then none else lookup k es := by
  induction es with
  | nil => simp [erase, lookup]
  | cons e es ih =>
    obtain ⟨l, v⟩ := e
    rw [erase_cons]
    by_cases hl : l = key
    · rw [if_pos hl, ih]
      split
      · rfl
      · next hk =>
        have hlk : l ≠ k := fun h => hk (h.symm.trans hl)
        rw [lookup, if_neg hlk]
    · rw [if_neg hl, lookup, lookup, ih]
      split
      · next hk => rw [if_neg (hk ▸ hl)]
      · rfl

theorem lookup_perm (hn : (keys es).Nodup) (h : es.Perm es') : lookup key es = lookup key es' := by
  have hn' : (keys es').Nodup := (h.map _).nodup_iff.1 hn
  cases hl : lookup key es with
  | none =>
    rw [lookup_eq_none_iff] at hl
    exact (lookup_eq_none_iff.2 fun hm => hl ((h.map _).mem_iff.2 hm)).symm
  | some v => exact (lookup_of_mem hn' (h.mem_iff.1 (mem_of_lookup hl))).symm

theorem lookup_middle {front back : Entries} (h : (keys (front ++ (key, v) :: back)).Nodup) :
    lookup key (front ++ (key, v) :: back) = some v := lookup_of_mem h (by simp)

theorem lookup_replace {front back : Entries} (hne : k ≠ key) :
    lookup k (front ++ (key, v) :: back) = lookup k (front ++ (key, w) :: back) := by
  rw [lookup_append, lookup_append, lookup, lookup, if_neg hne.symm, if_neg hne.symm]

/-! ## Documents with something taken out or put in -/

theorem Document.sublist (h : Document es) (hs : es'.Sublist es) : Document es' :=
  ⟨h.nodup.sublist (hs.map _), fun e he => h.values e (hs.subset he)⟩

theorem Document.erase (h : Document es) : Document (erase key es) := h.sublist List.filter_sublist

theorem Document.lookup (h : Document es) (hl : Toml.lookup key es = some v) : v.Keyed := h.values _ (mem_of_lookup hl)

theorem Document.replace {front back : Entries} (h : Document (front ++ (key, v) :: back)) (hw : w.Keyed) :
    Document (front ++ (key, w) :: back) :=
  ⟨keys_replace ▸ h.nodup, forall_mem_replace h.values hw⟩

theorem Document.insert {front back : Entries} (h : Document (front ++ back)) (hk : key ∉ keys (front ++ back))
    (hv : v.Keyed) : Document (front ++ (key, v) :: back) := by
  have hperm : (front ++ (key, v) :: back).Perm ((key, v) :: (front ++ back)) := List.perm_middle
  refine ⟨(hperm.map _).nodup_iff.2 (List.nodup_cons.2 ⟨hk, h.nodup⟩), fun e he => ?_⟩
  rcases List.mem_cons.1 (hperm.mem_iff.1 he) with rfl | he
  · exact hv
  · exact h.values e he

/-! ## Steps that build up a document -/

/-- What changing one key can do: change the value under it, or put it behind the others. -/
theorem alter_cases {f : Option Value → Option (α × Value)} {a : α} (h : alter key f es = some (a, es')) :
    (∃ front v back w, es = front ++ (key, v) :: back ∧ f (some v) = some (a, w) ∧
        es' = front ++ (key, w) :: back) ∨
      (key ∉ keys es ∧ ∃ w, f none = some (a, w) ∧ es' = es ++ [(key, w)]) := by
  induction es generalizing es' with
  | nil =>
    obtain ⟨⟨_, w⟩, hf, ⟨⟩⟩ := Option.map_eq_some_iff.1 h
    exact .inr ⟨List.not_mem_nil, w, hf, rfl⟩
  | cons e es ih =>
    obtain ⟨k, v⟩ := e
    rw [alter] at h
    split at h
    · next hk =>
      obtain ⟨⟨_, w⟩, hf, ⟨⟩⟩ := Option.map_eq_some_iff.1 h
      subst hk
      exact .inl ⟨[], v, es, w, rfl, hf, rfl⟩
    · next hk =>
      obtain ⟨⟨_, rest⟩, hr, ⟨⟩⟩ := Option.map_eq_some_iff.1 h
      rcases ih hr with ⟨front, x, back, w, rfl, hf, rfl⟩ | ⟨hnew, w, hf, rfl⟩
      · exact .inl ⟨(k, v) :: front, x, back, w, rfl, hf, rfl⟩
      · exact .inr ⟨by simp [keys] at hnew ⊢; exact ⟨Ne.symm hk, hnew⟩, w, hf, rfl⟩

theorem alterLast_cases {β : Type} {f : β → Option (α × β)} {a : α} {bs bs' : List β}
    (h : alterLast f bs = some (a, bs')) :
    ∃ front b c, bs = front ++ [b] ∧ f b = some (a, c) ∧ bs' = front ++ [c] := by
  induction bs generalizing bs' with
  | nil => cases h
  | cons b bs ih =>
    cases bs with
    | nil =>
      obtain ⟨⟨_, c⟩, hf, ⟨⟩⟩ := Option.map_eq_some_iff.1 h
      exact ⟨[], b, c, rfl, hf, rfl⟩
    | cons b' bs =>
      obtain ⟨⟨_, rest⟩, hr, ⟨⟩⟩ := Option.map_eq_some_iff.1 h
      obtain ⟨front, y, c, hbs, hf, rfl⟩ := ih hr
      exact ⟨b :: front, y, c, by rw [hbs]; rfl, hf, rfl⟩

/-- Documents stay documents, and what comes out beside them is of a kind. -/
def Keeps (Q : α → Prop) (f : Entries → Option (α × Entries)) : Prop :=
  ∀ es a es', Document es → f es = some (a, es') → Q a ∧ Document es'

theorem keeps_alter {Q : α → Prop} {f : Option Value → Option (α × Value)}
    (hf : ∀ old a w, (∀ v ∈ old, v.Keyed) → f old = some (a, w) → Q a ∧ w.Keyed) : Keeps Q (alter key f) := by
  intro es a es' hes h
  rcases alter_cases h with ⟨front, v, back, w, rfl, hw, rfl⟩ | ⟨hnew, w, hw, rfl⟩
  · obtain ⟨hq, hw⟩ := hf (some v) a w (fun x hx => Option.some.inj hx ▸ hes.values (key, v) (by simp)) hw
    exact ⟨hq, hes.replace hw⟩
  · obtain ⟨hq, hw⟩ := hf none a w (by simp) hw
    rw [← List.append_nil es] at hes hnew
    exact ⟨hq, hes.insert hnew hw⟩

theorem Keeps.alterLast {Q : α → Prop} {f : Entries → Option (α × Entries)} (h : Keeps Q f) {ts ts' : List Entries}
    {a : α} (hts : ∀ es ∈ ts, Document es) (hl : alterLast f ts = some (a, ts')) : Q a ∧ ∀ es ∈ ts', Document es := by
  obtain ⟨front, b, c, rfl, hf, rfl⟩ := alterLast_cases hl
  obtain ⟨hq, hc⟩ := h b a c (hts b (by simp)) hf
  exact ⟨hq, forall_mem_replace hts hc⟩

theorem Keeps.under {Q : α → Prop} {f : Entries → Option (α × Entries)} (h : Keeps Q f) (path : List Text) :
    Keeps Q (under f path) := by
  induction path with
  | nil => exact h
  | cons p ps ih =>
    refine keeps_alter fun old a w hold hw => ?_
    split at hw
    · obtain ⟨⟨_, sub⟩, hsub, ⟨⟩⟩ := Option.map_eq_some_iff.1 hw
      obtain ⟨hq, hd⟩ := ih _ _ _ document_nil hsub
      exact ⟨hq, keyed_table_iff.2 hd⟩
    · cases hw
    · obtain ⟨⟨_, sub⟩, hsub, ⟨⟩⟩ := Option.map_eq_some_iff.1 hw
      obtain ⟨hq, hd⟩ := ih _ _ _ (keyed_table_iff.1 (hold _ rfl)) hsub
      exact ⟨hq, keyed_table_iff.2 hd⟩
    · obtain ⟨⟨_, sub⟩, hsub, ⟨⟩⟩ := Option.map_eq_some_iff.1 hw
      obtain ⟨hq, hd⟩ := ih.alterLast (keyed_tables_iff.1 (hold _ rfl)) hsub
      exact ⟨hq, keyed_tables_iff.2 hd⟩
    · cases hw

theorem document_assign {path : List Text} (hv : v.Keyed) (hes : Document es) (h : assign key v path es = some es') :
    Document es' := by
  induction path generalizing es es' with
  | nil =>
    obtain ⟨⟨u, fs⟩, hal, rfl⟩ := Option.map_eq_some_iff.1 h
    refine (keeps_alter (Q := fun _ => True) (fun old a w _ hw => ?_) _ _ _ hes hal).2
    split at hw
    · obtain ⟨-, rfl⟩ := Prod.mk.inj (Option.some.inj hw)
      exact ⟨trivial, hv⟩
    · cases hw
  | cons p ps ih =>
    obtain ⟨⟨u, fs⟩, hal, rfl⟩ := Option.map_eq_some_iff.1 h
    have hsub : Keeps (fun _ : Unit => True) fun es => (assign key v ps es).map fun sub => ((), sub) := by
      intro es a es' hes hs
      obtain ⟨sub, hsub, ⟨⟩⟩ := Option.map_eq_some_iff.1 hs
      exact ⟨trivial, ih hes hsub⟩
    refine (keeps_alter (Q := fun _ => True) (fun old a w hold hw => ⟨trivial, ?_⟩) _ _ _ hes hal).2
    split at hw
    · obtain ⟨sub, hs, ⟨⟩⟩ := Option.map_eq_some_iff.1 hw
      exact keyed_table_iff.2 (ih document_nil hs)
    · obtain ⟨sub, hs, ⟨⟩⟩ := Option.map_eq_some_iff.1 hw
      exact keyed_table_iff.2 (ih (keyed_table_iff.1 (hold _ rfl)) hs)
    · split at hw
      · cases hw
      · obtain ⟨sub, hs, ⟨⟩⟩ := Option.map_eq_some_iff.1 hw
        exact keyed_table_iff.2 (ih (keyed_table_iff.1 (hold _ rfl)) hs)
    · split at hw
      · cases hw
      · obtain ⟨⟨_, items⟩, hs, ⟨⟩⟩ := Option.map_eq_some_iff.1 hw
        exact keyed_tables_iff.2 (hsub.alterLast (keyed_tables_iff.1 (hold _ rfl)) hs).2
    · cases hw

/-! ## Drafts -/

structure Draft.Keyed (d : Draft) : Prop where
  root : Document d.root
  current : Document d.current

namespace Draft

variable {d d' : Draft} {path : List Text}

theorem keyed_start : Draft.start.Keyed := ⟨document_nil, document_nil⟩

theorem keeps_putTable (hes : Document es) : Keeps (fun _ => True) (putTable key es) :=
  keeps_alter fun old a w _ hw => by
    split at hw
    · obtain ⟨-, rfl⟩ := Prod.mk.inj (Option.some.inj hw)
      exact ⟨trivial, keyed_table_iff.2 hes⟩
    · cases hw

theorem keeps_putRepeated (hes : Document es) : Keeps (fun _ => True) (putRepeated key es) :=
  keeps_alter fun old a w hold hw => by
    split at hw
    · obtain ⟨-, rfl⟩ := Prod.mk.inj (Option.some.inj hw)
      exact ⟨trivial, keyed_tables_iff.2 (by simpa using hes)⟩
    · obtain ⟨-, rfl⟩ := Prod.mk.inj (Option.some.inj hw)
      have hitems := keyed_tables_iff.1 (hold _ rfl)
      refine ⟨trivial, keyed_tables_iff.2 fun fs hfs => ?_⟩
      rcases List.mem_append.1 hfs with hfs | hfs
      · exact hitems fs hfs
      · exact List.mem_singleton.1 hfs ▸ hes
    · cases hw

theorem keeps_reserve : Keeps (fun _ => True) (reserve key) :=
  keeps_alter fun old a w hold hw => by
    split at hw
    · obtain ⟨-, rfl⟩ := Prod.mk.inj (Option.some.inj hw)
      exact ⟨trivial, keyed_tables_iff.2 (by simp)⟩
    · obtain ⟨-, rfl⟩ := Prod.mk.inj (Option.some.inj hw)
      exact ⟨trivial, hold _ rfl⟩
    · cases hw

theorem keeps_takeImplied : Keeps Document (takeImplied key) := by
  intro es a es' hes h
  rw [takeImplied] at h
  split at h
  · obtain ⟨rfl, rfl⟩ := Prod.mk.inj (Option.some.inj h)
    exact ⟨document_nil, hes⟩
  · next hl =>
    obtain ⟨rfl, rfl⟩ := Prod.mk.inj (Option.some.inj h)
    exact ⟨keyed_table_iff.1 (hes.lookup hl), hes.erase⟩
  · cases h

theorem Keyed.close (h : d.Keyed) (hc : d.close = some es) : Document es := by
  rw [Draft.close] at hc
  split at hc
  · exact Option.some.inj hc ▸ h.current
  · next key _ =>
    obtain ⟨⟨u, fs⟩, hu, rfl⟩ := Option.map_eq_some_iff.1 hc
    refine (Keeps.under (Q := fun _ => True) ?_ _ _ _ _ h.root hu).2
    split
    · exact keeps_putRepeated h.current
    · exact keeps_putTable h.current

theorem Keyed.openTable (h : d.Keyed) (ho : d.openTable path = some d') : d'.Keyed := by
  obtain ⟨root, hc, ho⟩ := Option.bind_eq_some_iff.1 ho
  obtain ⟨⟨current, root'⟩, hu, ho⟩ := Option.bind_eq_some_iff.1 ho
  obtain rfl := Option.some.inj ho
  obtain ⟨hcurrent, hroot⟩ := keeps_takeImplied.under _ _ _ _ (h.close hc) hu
  exact ⟨hroot, hcurrent⟩

theorem Keyed.openRepeated (h : d.Keyed) (ho : d.openRepeated path = some d') : d'.Keyed := by
  obtain ⟨root, hc, ho⟩ := Option.bind_eq_some_iff.1 ho
  obtain ⟨⟨u, root'⟩, hu, ho⟩ := Option.bind_eq_some_iff.1 ho
  obtain rfl := Option.some.inj ho
  exact ⟨(keeps_reserve.under _ _ _ _ (h.close hc) hu).2, document_nil⟩

theorem Keyed.put (h : d.Keyed) (hv : v.Keyed) (hp : d.put path v = some d') : d'.Keyed := by
  obtain ⟨current, ha, hp⟩ := Option.bind_eq_some_iff.1 hp
  obtain rfl := Option.some.inj hp
  exact ⟨h.root, document_assign hv h.current ha⟩

end Draft

/-! ## Reading -/

theorem keyed_of_items {item : Text → Option (Value × Text)} (hitem : ∀ s v r, item s = some (v, r) → v.Keyed)
    {fuel : Nat} {s r : Text} {vs : List Value} (h : items item fuel s = some (vs, r)) : ∀ v ∈ vs, v.Keyed := by
  induction fuel generalizing s r vs with
  | zero => cases h
  | succ fuel ih =>
    obtain ⟨t, -, h⟩ := Option.bind_eq_some_iff.1 h
    split at h
    · obtain ⟨rfl, -⟩ := Prod.mk.inj (Option.some.inj h)
      simp
    · obtain ⟨⟨v, t'⟩, hv, h⟩ := Option.bind_eq_some_iff.1 h
      obtain ⟨u, -, h⟩ := Option.bind_eq_some_iff.1 h
      split at h
      · obtain ⟨rfl, -⟩ := Prod.mk.inj (Option.some.inj h)
        simpa using hitem _ _ _ hv
      · obtain ⟨⟨ws, t''⟩, hws, h⟩ := Option.bind_eq_some_iff.1 h
        obtain ⟨rfl, -⟩ := Prod.mk.inj (Option.some.inj h)
        exact List.forall_mem_cons.2 ⟨hitem _ _ _ hv, ih hws⟩
      · cases h

theorem keyed_of_pair {item : Text → Option (Value × Text)} (hitem : ∀ s v r, item s = some (v, r) → v.Keyed)
    {s r : Text} {p : List Text × Value} (h : pair item s = some (p, r)) : p.2.Keyed := by
  obtain ⟨⟨path, t⟩, -, h⟩ := Option.bind_eq_some_iff.1 h
  obtain ⟨u, -, h⟩ := Option.bind_eq_some_iff.1 h
  obtain ⟨⟨v, r⟩, hv, ⟨⟩⟩ := Option.bind_eq_some_iff.1 h
  exact hitem _ _ _ hv

theorem keyed_of_pairs {item : Text → Option (Value × Text)} (hitem : ∀ s v r, item s = some (v, r) → v.Keyed)
    {fuel : Nat} {s r : Text} {ps : List (List Text × Value)} (h : pairs item fuel s = some (ps, r)) :
    ∀ p ∈ ps, p.2.Keyed := by
  induction fuel generalizing s r ps with
  | zero => cases h
  | succ fuel ih =>
    obtain ⟨⟨p, t⟩, hp, h⟩ := Option.bind_eq_some_iff.1 h
    have hfirst := keyed_of_pair hitem hp
    dsimp only at h
    split at h
    · obtain ⟨rfl, -⟩ := Prod.mk.inj (Option.some.inj h)
      simpa using hfirst
    · obtain ⟨⟨qs, u⟩, hqs, ⟨⟩⟩ := Option.bind_eq_some_iff.1 h
      exact List.forall_mem_cons.2 ⟨hfirst, ih hqs⟩
    · cases h

theorem keyed_of_inlineTable {ps : List (List Text × Value)} (hps : ∀ p ∈ ps, p.2.Keyed) (h : inlineTable ps = some v) :
    v.Keyed := by
  obtain ⟨es, hes, ⟨⟩⟩ := Option.bind_eq_some_iff.1 h
  refine keyed_table_iff.2 ?_
  have hfold : ∀ fs, Document fs →
      ps.foldlM (fun es p => assign (p.1.getLast?.getD []) p.2 p.1.dropLast es) fs = some es → Document es := by
    clear h hes
    induction ps with
    | nil =>
      intro fs hfs h
      exact Option.some.inj h ▸ hfs
    | cons p ps ih =>
      intro fs hfs h
      obtain ⟨hp, hps⟩ := List.forall_mem_cons.1 hps
      obtain ⟨gs, hgs, h⟩ := Option.bind_eq_some_iff.1 h
      exact ih hps gs (document_assign hp hfs hgs) h
  exact hfold [] document_nil hes

theorem keyed_of_scalar {s r : Text} (h : scalar s = some (v, r)) : v.Keyed := by
  unfold scalar at h
  split at h
  · cases h
  split at h
  · obtain ⟨⟨t, _⟩, -, ⟨⟩⟩ := Option.map_eq_some_iff.1 h
    exact .string t
  split at h
  · obtain ⟨_, -, ⟨⟩⟩ := Option.map_eq_some_iff.1 h
    exact .boolean true
  split at h
  · obtain ⟨_, -, ⟨⟩⟩ := Option.map_eq_some_iff.1 h
    exact .boolean false
  split at h
  · obtain ⟨⟨x, _⟩, -, ⟨⟩⟩ := Option.map_eq_some_iff.1 h
    exact .float x
  split at h
  · split at h
    · cases h
      exact .datetime
    split at h
    · cases h
      exact .float _
    · obtain ⟨⟨i, _⟩, -, ⟨⟩⟩ := Option.map_eq_some_iff.1 h
      exact .integer i
  · cases h

theorem keyed_of_value {room : Nat} {s r : Text} (h : value room s = some (v, r)) : v.Keyed := by
  induction room generalizing s v r with
  | zero =>
    unfold value at h
    split at h
    · cases h
    · cases h
    · exact keyed_of_scalar h
  | succ room ih =>
    have hitem : ∀ s v r, value room s = some (v, r) → v.Keyed := fun _ _ _ => ih
    unfold value at h
    split at h
    · obtain ⟨⟨vs, t⟩, hvs, ⟨⟩⟩ := Option.bind_eq_some_iff.1 h
      exact keyed_array_iff.2 (keyed_of_items hitem hvs)
    · dsimp only at h
      split at h
      · cases h
        exact keyed_table_iff.2 document_nil
      · obtain ⟨⟨ps, t⟩, hps, h⟩ := Option.bind_eq_some_iff.1 h
        obtain ⟨w, hw, ⟨⟩⟩ := Option.bind_eq_some_iff.1 h
        exact keyed_of_inlineTable (keyed_of_pairs hitem hps) hw
    · exact keyed_of_scalar h

theorem keyed_of_line {d d' : Draft} {s r : Text} (hd : d.Keyed) (h : line d s = some (d', r)) : d'.Keyed := by
  unfold line at h
  split at h
  · obtain ⟨⟨path, t⟩, -, h⟩ := Option.bind_eq_some_iff.1 h
    obtain ⟨_, -, h⟩ := Option.bind_eq_some_iff.1 h
    obtain ⟨_, -, h⟩ := Option.bind_eq_some_iff.1 h
    obtain ⟨_, -, h⟩ := Option.bind_eq_some_iff.1 h
    obtain ⟨_, ho, ⟨⟩⟩ := Option.bind_eq_some_iff.1 h
    exact hd.openRepeated ho
  · obtain ⟨⟨path, t⟩, -, h⟩ := Option.bind_eq_some_iff.1 h
    obtain ⟨_, -, h⟩ := Option.bind_eq_some_iff.1 h
    obtain ⟨_, -, h⟩ := Option.bind_eq_some_iff.1 h
    obtain ⟨_, ho, ⟨⟩⟩ := Option.bind_eq_some_iff.1 h
    exact hd.openTable ho
  · obtain ⟨⟨⟨path, v⟩, t⟩, hp, h⟩ := Option.bind_eq_some_iff.1 h
    obtain ⟨_, hput, h⟩ := Option.bind_eq_some_iff.1 h
    obtain ⟨_, -, ⟨⟩⟩ := Option.bind_eq_some_iff.1 h
    exact hd.put (keyed_of_pair (fun _ _ _ => keyed_of_value) hp) hput

theorem document_of_linesFrom {fuel : Nat} {d : Draft} {s : Text} (hd : d.Keyed) (h : linesFrom fuel d s = some es) :
    Document es := by
  induction fuel generalizing d s with
  | zero => cases h
  | succ fuel ih =>
    rw [linesFrom] at h
    split at h
    · exact hd.close h
    · obtain ⟨r, -, h⟩ := Option.bind_eq_some_iff.1 h
      exact ih hd h
    · split at h
      · exact ih hd h
      · obtain ⟨⟨d', r⟩, hl, h⟩ := Option.bind_eq_some_iff.1 h
        exact ih (keyed_of_line hd hl) h

/-- What is read from a text has no repeated keys. -/
theorem document_of_parse {s : Text} (h : parse s = some es) : Document es := document_of_linesFrom Draft.keyed_start h

end Replay.Toml
