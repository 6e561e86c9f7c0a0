/-
  Replay.Proofs.Config.Fields — structures that are read from the entries of a table.

  A `Schema` lists the fields of a structure: the key of each, how a value for it is read,
  and where it is kept. A structure is `Laid` over another one by a table if each of its
  fields is what its key gives, or is kept where the key is absent. What one entry does is
  said in the same words (`Enters`), so a table without repeated keys, entered one entry
  after the other, lays the structure field by field (`foldlM_eq_ok_iff`). Only the values
  under the keys of the fields count then, in any order.

  Proved here: `foldlM_eq_ok_iff`, `Laid.erase`, `Laid.replace`, `Blind.laid_iff`, `Blind.readWith_iff`.
-/

import Mathlib.Logic.Function.Basic
import Replay.Config
import Replay.Proofs.Toml.Keys

namespace Replay.Config

open Text Toml

/-- What a key comes to: the reading of its value if it is given, what was there before if not. -/
def given {α : Type} (read : Value → Except Mismatch α) (before : α) : Option Value → Except Mismatch α
  | none => .ok before
  | some v => read v

/-- The fields of a structure. -/
structure Schema (σ : Type) {Field : Type} (Content : Field → Type) where
  names : List Text
  nodup : names.Nodup
  key : Field → Text
  key_mem : ∀ f, key f ∈ names
  key_injective : Function.Injective key
  read : (f : Field) → Value → Except Mismatch (Content f)
  get : σ → (f : Field) → Content f
  make : ((f : Field) → Content f) → σ
  get_make : ∀ contents, get (make contents) = contents
  make_get : ∀ c, make (get c) = c

namespace Schema

variable {σ Field : Type} {Content : Field → Type} {s : Schema σ Content} {take : σ → Text × Value → Except Mismatch σ}
  {base c : σ} {es : Entries}

/-- Each field is what its key gives, and is kept without its key. -/
def Laid (s : Schema σ Content) (base : σ) (es : Entries) (c : σ) : Prop :=
  ∀ f, given (s.read f) (s.get base f) (lookup (s.key f) es) = .ok (s.get c f)

/-- One entry is entered in the field of its key, and nowhere without one. -/
def Enters (s : Schema σ Content) (take : σ → Text × Value → Except Mismatch σ) : Prop :=
  ∀ base e c, take base e = .ok c ↔ s.Laid base [e] c

/-- One field changed, and all others kept. -/
def set [DecidableEq Field] (s : Schema σ Content) (base : σ) (f : Field) (content : Content f) : σ :=
  s.make (Function.update (s.get base) f content)

/-- The field of one key put back, and all others kept. -/
def reset (s : Schema σ Content) (base : σ) (key : Text) (c : σ) : σ :=
  s.make fun f => if s.key f = key then s.get base f else s.get c f

/-- A value is read as a structure: the fields it stands for are entered one after the other. -/
def readWith (s : Schema σ Content) (take : σ → Text × Value → Except Mismatch σ) (name : Text) (base : σ)
    (v : Value) : Except Mismatch σ := do
  (← readFields name s.names v).foldlM take base

/-! ## Entry by entry -/

/-- Without any of the keys nothing is entered. -/
theorem laid_absent_iff (h : ∀ f, lookup (s.key f) es = none) : s.Laid base es c ↔ base = c := by
  constructor
  · intro hlaid
    have hget : s.get base = s.get c := funext fun f => by
      have hf := hlaid f
      rw [h f] at hf
      exact Except.ok.inj hf
    rw [← s.make_get base, hget, s.make_get]
  · rintro rfl f
    rw [h f]
    rfl

theorem laid_single_iff [DecidableEq Field] {f : Field} {v : Value} :
    s.Laid base [(s.key f, v)] c ↔ ∃ content, s.read f v = .ok content ∧ s.set base f content = c := by
  have hown : lookup (s.key f) [(s.key f, v)] = some v := if_pos rfl
  have hother : ∀ g, g ≠ f → lookup (s.key g) [(s.key f, v)] = none := fun g hg =>
    if_neg fun he => hg (s.key_injective he.symm)
  constructor
  · intro h
    have hf := h f
    rw [hown] at hf
    refine ⟨s.get c f, hf, ?_⟩
    have hget : Function.update (s.get base) f (s.get c f) = s.get c := by
      rw [Function.update_eq_iff]
      refine ⟨rfl, fun g hg => ?_⟩
      have hg' := h g
      rw [hother g hg] at hg'
      exact Except.ok.inj hg'
    rw [set, hget, s.make_get]
  · rintro ⟨content, hread, rfl⟩ g
    rw [set, s.get_make]
    by_cases hg : g = f
    · subst hg
      rw [hown, Function.update_self]
      exact hread
    · rw [hother g hg, Function.update_of_ne hg]
      rfl

/-- It is enough to say what an entry does under the key of a field, and that any other does nothing. -/
theorem enters_of [DecidableEq Field] (hown : ∀ base f v, take base (s.key f, v) = s.set base f <$> s.read f v)
    (hother : ∀ base e, (∀ f, e.1 ≠ s.key f) → take base e = .ok base) : s.Enters take := by
  rintro base ⟨k, v⟩ c
  by_cases hk : ∃ f, k = s.key f
  · obtain ⟨f, rfl⟩ := hk
    rw [hown, map_eq_ok_iff, laid_single_iff]
  · rw [not_exists] at hk
    have hnone : ∀ f, lookup (s.key f) [(k, v)] = none := fun f => if_neg (hk f)
    rw [hother base (k, v) hk, laid_absent_iff hnone, Except.ok.injEq]

theorem given_cons {α : Type} {read : Value → Except Mismatch α} {before after : α} {key : Text} {e : Text × Value}
    (he : e.1 ∉ keys es) : given read before (lookup key (e :: es)) = .ok after ↔
      ∃ between, given read before (lookup key [e]) = .ok between ∧ given read between (lookup key es) = .ok after := by
  by_cases hk : e.1 = key
  · have hnone : lookup key es = none := lookup_eq_none_iff.2 (hk ▸ he)
    simp [lookup, hk, hnone, given]
  · simp [lookup, hk, given]

theorem laid_nil : s.Laid base [] c ↔ base = c := laid_absent_iff fun _ => rfl

theorem laid_cons {e : Text × Value} (he : e.1 ∉ keys es) :
    s.Laid base (e :: es) c ↔ ∃ m, s.Laid base [e] m ∧ s.Laid m es c := by
  constructor
  · intro h
    have hbetween := fun f => (given_cons he).1 (h f)
    refine ⟨s.make fun f => (hbetween f).choose, fun f => ?_, fun f => ?_⟩
    · rw [s.get_make]
      exact (hbetween f).choose_spec.1
    · rw [s.get_make]
      exact (hbetween f).choose_spec.2
  · rintro ⟨m, hfirst, hrest⟩ f
    exact (given_cons he).2 ⟨_, hfirst f, hrest f⟩

theorem foldlM_eq_ok_iff (ht : s.Enters take) (hes : (keys es).Nodup) :
    es.foldlM take base = .ok c ↔ s.Laid base es c := by
  induction es generalizing base with
  | nil => rw [laid_nil, List.foldlM_nil, pure_eq_ok_iff]
  | cons e es ih =>
    obtain ⟨he, hes⟩ := List.nodup_cons.1 hes
    rw [List.foldlM_cons, bind_eq_ok_iff, laid_cons he]
    exact exists_congr fun m => and_congr (ht base e m) (ih hes)

theorem Laid.erase {key : Text} (h : s.Laid base es c) : s.Laid base (erase key es) (s.reset base key c) := by
  intro f
  rw [lookup_erase, reset, s.get_make]
  split
  · rfl
  · exact h f

theorem Laid.replace [DecidableEq Field] {front back : Entries} {f : Field} {v w : Value} {content : Content f}
    (h : s.Laid base (front ++ (s.key f, v) :: back) c) (hn : (keys (front ++ (s.key f, v) :: back)).Nodup)
    (hw : s.read f w = .ok content) : s.Laid base (front ++ (s.key f, w) :: back) (s.set c f content) := by
  intro g
  rw [set, s.get_make]
  by_cases hg : g = f
  · subst hg
    rw [Function.update_self, lookup_middle (keys_replace ▸ hn)]
    exact hw
  · rw [Function.update_of_ne hg, ← lookup_replace fun he => hg (s.key_injective he)]
    exact h g

end Schema

/-! ## Fields of a value -/

theorem keys_zip_sublist (names : List Text) (vs : List Value) : (keys (names.zip vs)).Sublist names := by
  induction names generalizing vs with
  | nil => exact List.Sublist.slnil
  | cons n names ih =>
    cases vs with
    | nil => exact List.nil_sublist _
    | cons v vs => exact (ih vs).cons_cons n

theorem document_zip {names : List Text} {vs : List Value} (hn : names.Nodup) (hvs : ∀ v ∈ vs, v.Keyed) :
    Document (names.zip vs) :=
  ⟨hn.sublist (keys_zip_sublist names vs), fun _ he => hvs _ (List.of_mem_zip he).2⟩

/-- However a structure is written, it has each of its fields once. -/
theorem document_of_readFields {name : Text} {names : List Text} {v : Value} {es : Entries} (hn : names.Nodup)
    (hv : v.Keyed) (h : readFields name names v = .ok es) : Document es := by
  unfold readFields at h
  split at h
  · exact Except.ok.inj h ▸ keyed_table_iff.1 hv
  · exact Except.ok.inj h ▸ document_nil
  · exact Except.ok.inj h ▸ document_zip hn (keyed_array_iff.1 hv)
  · next ts =>
    refine Except.ok.inj h ▸ document_zip hn fun v hv' => ?_
    obtain ⟨t, ht, rfl⟩ := List.mem_map.1 hv'
    exact keyed_table_iff.2 (keyed_tables_iff.1 hv t ht)
  · cases h

/-! ## Edits that nobody notices -/

/-- The entries of a table for the fields `names` are put in another order, or gain a key that is no field, or change
    under such a key, or change under a field as `inside` says. -/
inductive Edited (names : List Text) (inside : Text → Value → Value → Prop) : Entries → Entries → Prop
  | permuted {es es' : Entries} : es.Perm es' → Edited names inside es es'
  | added {front back : Entries} {key : Text} {v : Value} : key ∉ names → key ∉ keys (front ++ back) → v.Keyed →
      Edited names inside (front ++ back) (front ++ (key, v) :: back)
  | ignored {front back : Entries} {key : Text} {v w : Value} : key ∉ names → w.Keyed →
      Edited names inside (front ++ (key, v) :: back) (front ++ (key, w) :: back)
  | within {front back : Entries} {key : Text} {v w : Value} : inside key v w →
      Edited names inside (front ++ (key, v) :: back) (front ++ (key, w) :: back)

/-- A structure's table is edited, or one item of the list as which the structure is written. -/
inductive EditedIn (names : List Text) (inside : Text → Value → Value → Prop) : Value → Value → Prop
  | table {form : Form} {es es' : Entries} : Edited names inside es es' →
      EditedIn names inside (.table form es) (.table form es')
  | item {front back : List Value} {key : Text} {v w : Value} : names[front.length]? = some key → inside key v w →
      EditedIn names inside (.array (front ++ v :: back)) (.array (front ++ w :: back))

variable {names : List Text} {inside : Text → Value → Value → Prop} {es es' : Entries} {v w : Value}

theorem Edited.document (h : Edited names inside es es') (hes : Document es)
    (hin : ∀ key v w, v.Keyed → inside key v w → w.Keyed) : Document es' := by
  cases h with
  | permuted hp => exact ⟨(hp.map _).nodup_iff.1 hes.nodup, fun e he => hes.values e (hp.mem_iff.2 he)⟩
  | added _ hk hv => exact hes.insert hk hv
  | ignored _ hw => exact hes.replace hw
  | @within front back key v w h => exact hes.replace (hin key v w (hes.values (key, v) (by simp)) h)

theorem EditedIn.keyed (h : EditedIn names inside v w) (hv : v.Keyed)
    (hin : ∀ key v w, v.Keyed → inside key v w → w.Keyed) : w.Keyed := by
  cases h with
  | table h => exact keyed_table_iff.2 (h.document (keyed_table_iff.1 hv) hin)
  | @item front back key x y _ h =>
    have hitems := keyed_array_iff.1 hv
    exact keyed_array_iff.2 (forall_mem_replace hitems (hin key x y (hitems x (by simp)) h))

/-- A field's value is what it was, or is another one as `inside` says. -/
theorem Edited.lookup_cases (h : Edited names inside es es') (hes : Document es) {key : Text} (hk : key ∈ names) :
    lookup key es = lookup key es' ∨
      ∃ v w, lookup key es = some v ∧ lookup key es' = some w ∧ v.Keyed ∧ inside key v w := by
  cases h with
  | permuted hp => exact .inl (lookup_perm hes.nodup hp)
  | @added front back other x ho _ _ =>
    have hne : other ≠ key := fun he => ho (he ▸ hk)
    rw [lookup_append, lookup_append, lookup, if_neg hne]
    exact .inl rfl
  | ignored ho _ => exact .inl (lookup_replace fun he => ho (he ▸ hk))
  | @within front back other x y hxy =>
    by_cases he : key = other
    · subst he
      have hnew : (keys (front ++ (key, y) :: back)).Nodup := keys_replace ▸ hes.nodup
      exact .inr ⟨x, y, lookup_middle hes.nodup, lookup_middle hnew, hes.values (key, x) (by simp), hxy⟩
    · exact .inl (lookup_replace he)

/-- The table behind an edited value is edited. -/
theorem EditedIn.exists_fields (h : EditedIn names inside v w) (name : Text) :
    ∃ es es', readFields name names v = .ok es ∧ readFields name names w = .ok es' ∧ Edited names inside es es' := by
  cases h with
  | table h => exact ⟨_, _, rfl, rfl, h⟩
  | @item front back key x y hkey hxy =>
    refine ⟨_, _, rfl, rfl, ?_⟩
    obtain ⟨hlt, rfl⟩ := List.getElem?_eq_some_iff.1 hkey
    have hzip : ∀ z : Value, names.zip (front ++ z :: back) = (names.take front.length).zip front ++
        (names[front.length], z) :: (names.drop (front.length + 1)).zip back := by
      intro z
      have hnames : names = names.take front.length ++ names[front.length] :: names.drop (front.length + 1) := by
        rw [← List.drop_eq_getElem_cons hlt, List.take_append_drop]
      have hlen : (names.take front.length).length = front.length := List.length_take_of_le (Nat.le_of_lt hlt)
      rw [congrArg (List.zip · (front ++ z :: back)) hnames, List.zip_append hlen, List.zip_cons_cons]
    rw [hzip, hzip]
    exact .within hxy

namespace Schema

variable {σ Field : Type} {Content : Field → Type} {s : Schema σ Content}
  {take : σ → Text × Value → Except Mismatch σ} {base c : σ} {name : Text}

/-- What changes inside a field does not show in its reading. -/
structure Blind (s : Schema σ Content) (inside : Text → Value → Value → Prop) : Prop where
  keyed : ∀ key v w, v.Keyed → inside key v w → w.Keyed
  reading : ∀ f v w, v.Keyed → inside (s.key f) v w → ∀ content, s.read f v = .ok content ↔ s.read f w = .ok content

theorem readWith_eq_ok_iff (ht : s.Enters take) (hv : v.Keyed) :
    s.readWith take name base v = .ok c ↔ ∃ es, readFields name s.names v = .ok es ∧ s.Laid base es c := by
  rw [readWith, bind_eq_ok_iff]
  refine exists_congr fun es => and_congr_right fun h => ?_
  exact foldlM_eq_ok_iff ht (document_of_readFields s.nodup hv h).nodup

/-- A structure that is not given is an empty one. -/
theorem given_eq_ok_iff (ht : s.Enters take) {old : Option Value} (hold : ∀ v ∈ old, v.Keyed) :
    given (s.readWith take name base) base old = .ok c ↔
      ∃ es, given (readFields name s.names) [] old = .ok es ∧ s.Laid base es c := by
  cases old with
  | none => simp [given, laid_nil]
  | some v => exact readWith_eq_ok_iff ht (hold v rfl)

/-- A key that is removed puts its field back. -/
theorem readWith_erase (ht : s.Enters take) {form : Form} (hes : Document es)
    (h : s.readWith take name base (.table form es) = .ok c) (key : Text) :
    s.readWith take name base (.table form (erase key es)) = .ok (s.reset base key c) :=
  (foldlM_eq_ok_iff ht hes.erase.nodup).2 ((foldlM_eq_ok_iff ht hes.nodup).1 h).erase

theorem Blind.laid_iff (hs : s.Blind inside) (h : Edited s.names inside es es') (hes : Document es) :
    s.Laid base es c ↔ s.Laid base es' c := by
  refine forall_congr' fun f => ?_
  rcases h.lookup_cases hes (s.key_mem f) with heq | ⟨v, w, hv, hw, hkeyed, hvw⟩
  · rw [heq]
  · rw [hv, hw]
    exact hs.reading f v w hkeyed hvw _

theorem Blind.readWith_iff (hs : s.Blind inside) (h : EditedIn s.names inside v w) (hv : v.Keyed)
    (ht : s.Enters take) : s.readWith take name base v = .ok c ↔ s.readWith take name base w = .ok c := by
  obtain ⟨es, es', hes, hes', hedit⟩ := h.exists_fields name
  have hdoc := document_of_readFields s.nodup hv hes
  have hlaid : s.Laid base es c ↔ s.Laid base es' c := hs.laid_iff hedit hdoc
  rw [readWith, readWith, hes, hes', ok_bind, ok_bind, foldlM_eq_ok_iff ht hdoc.nodup,
    foldlM_eq_ok_iff ht (hedit.document hdoc hs.keyed).nodup, hlaid]

end Schema

end Replay.Config
