/-
  Replay.Proofs.Files.Frames — what writing a file and making directories leave as it was.

  A disk `Widens` into another one if paths start where they did and no directory is lost;
  then every path that leads somewhere leads there still. Writing a file widens, since it
  never takes the place of a directory, and changes one place. Making the parents of a path
  only puts directories where nothing stood, each of them where some first names of the
  path lead (`Prepared`), also when it fails on the way. A file that was just written can
  be written again: its parents are there, and the same content changes nothing.

  Proved here: `Widens.follow`, `Widens.read`, `prepared_makeParents`,
  `makeParents_eq_self`, `write_again`.
-/

import Replay.Disk
import Replay.Proofs.Success

namespace Replay.Disk

open Text

variable {d e f : Disk} {p : Path} {place l : Location} {r : Route}

/-! ## When a request succeeds -/

theorem read_eq_ok_iff {t : Text} : d.read p = .ok t ↔
    ∃ place, d.locate p = .ok place ∧ d.entry place = some (.file (.text t)) ∧ endsOpen p = false := by
  rw [read, bind_eq_ok_iff]
  refine exists_congr fun place => and_congr_right fun _ => ?_
  cases d.entry place with
  | none => simp
  | some n =>
    cases n with
    | directory => simp
    | file c => cases c <;> cases endsOpen p <;> simp

theorem target_eq_ok_iff : d.target p = .ok place ↔
    d.locate p = .ok place ∧ d.entry place ≠ some .directory ∧ endsOpen p = false := by
  rw [target, bind_eq_ok_iff, endsOpen, Bool.or_eq_false_iff]
  constructor
  · intro h
    obtain ⟨l, hl, h⟩ := h
    split at h
    · simp at h
    · next hd =>
      cases hs : endsInSlash p <;> cases ht : endsInDot p <;> simp_all
  · intro h
    obtain ⟨hl, hd, hs, ht⟩ := h
    refine ⟨place, hl, ?_⟩
    split
    · contradiction
    · simp [hs, ht]

theorem write_eq_ok_iff {c : Content} :
    d.write p c = .ok e ↔ ∃ place, d.target p = .ok place ∧ d.put place (.file c) = e := by
  simp [write]

theorem makeDirectory_eq_ok_iff : d.makeDirectory r = .ok e ↔
    ∃ place, d.reach r = .ok place ∧ d.entry place = none ∧ d.put place .directory = e := by
  rw [makeDirectory, bind_eq_ok_iff]
  refine exists_congr fun place => and_congr_right fun _ => ?_
  cases d.entry place <;> simp

theorem locate_eq_ok_iff : d.locate p = .ok place ↔ p ≠ [] ∧ d.reach (routeOf p) = .ok place := by
  by_cases h : p = [] <;> simp [locate, reach, routeOf, h]

/-! ## Paths that lead somewhere -/

/-- Paths start where they did, and every directory is still one. -/
structure Widens (d e : Disk) : Prop where
  cwd : e.cwd = d.cwd
  directories : ∀ l, d.entry l = some .directory → e.entry l = some .directory

theorem Widens.trans (h : Widens d e) (h' : Widens e f) : Widens d f :=
  ⟨h'.cwd.trans h.cwd, fun l hl => h'.directories l (h.directories l hl)⟩

theorem follow_cons {n : Text} {ns : List Text} : d.follow place (n :: ns) = .ok l ↔
    d.entry place = some .directory ∧
      d.follow (if Path.isDotDot n then place.dropLast else place ++ [n]) ns = .ok l := by
  rw [follow]
  cases d.entry place with
  | none => simp
  | some n => cases n <;> simp

theorem follow_append {ns ms : List Text} : d.follow place (ns ++ ms) = .ok l ↔
    ∃ m, d.follow place ns = .ok m ∧ d.follow m ms = .ok l := by
  induction ns generalizing place with
  | nil => simp [follow]
  | cons n ns ih => simp [follow_cons, ih, and_assoc]

theorem Widens.follow {ns : List Text} (h : Widens d e) (hf : d.follow place ns = .ok l) :
    e.follow place ns = .ok l := by
  induction ns generalizing place with
  | nil => exact hf
  | cons n ns ih =>
    obtain ⟨hd, hf⟩ := follow_cons.1 hf
    exact follow_cons.2 ⟨h.directories _ hd, ih hf⟩

theorem Widens.reach (h : Widens d e) (hr : d.reach r = .ok l) : e.reach r = .ok l := by
  have hstart : e.start r.absolute = d.start r.absolute := by rw [start, start, h.cwd]
  rw [Disk.reach, hstart]
  exact h.follow hr

theorem Widens.locate (h : Widens d e) (hl : d.locate p = .ok l) : e.locate p = .ok l := by
  rw [locate_eq_ok_iff] at hl ⊢
  exact ⟨hl.1, h.reach hl.2⟩

/-- A file that stands as it did is read as it was. -/
theorem Widens.read {t : Text} (h : Widens d e) (hr : d.read p = .ok t)
    (hplace : ∀ l n, d.locate p = .ok l → d.entry l = some n → e.entry l = some n) : e.read p = .ok t := by
  obtain ⟨l, hl, he, ho⟩ := read_eq_ok_iff.1 hr
  exact read_eq_ok_iff.2 ⟨l, h.locate hl, hplace l _ hl he, ho⟩

/-! ## Writing -/

theorem ne_nil_of_entry (h : d.entry place ≠ some .directory) : place ≠ [] := by
  rintro rfl
  exact h rfl

theorem widens_put (n : Node) (h : d.entry place ≠ some .directory) : Widens d (d.put place n) := by
  refine ⟨rfl, fun l hl => ?_⟩
  rw [entry_put d (ne_nil_of_entry h)]
  split
  · next hp => exact absurd (hp ▸ hl) h
  · exact hl

theorem putAt_eq_self {n : Node} {ns : List (Location × Node)} (h : nodeAt place ns = some n) :
    putAt place n ns = ns := by
  induction ns with
  | nil => cases h
  | cons a ns ih =>
    obtain ⟨m, k⟩ := a
    rw [nodeAt] at h
    rw [putAt]
    split at h
    · next hm =>
      obtain rfl := Option.some.inj h
      rw [if_pos hm]
    · next hm => rw [if_neg hm, ih h]

theorem put_eq_self {n : Node} (h : d.entry place = some n) (hp : place ≠ []) : d.put place n = d := by
  rw [entry, if_neg hp] at h
  rw [put, putAt_eq_self h]

/-- What was written is written again without a change. -/
theorem write_again {c : Content} (h : d.write p c = .ok e) : e.write p c = .ok e := by
  obtain ⟨place, ht, rfl⟩ := write_eq_ok_iff.1 h
  obtain ⟨hl, hd, ho⟩ := target_eq_ok_iff.1 ht
  have hentry : (d.put place (.file c)).entry place = some (.file c) := by
    rw [entry_put d (ne_nil_of_entry hd), if_pos rfl]
  refine write_eq_ok_iff.2 ⟨place, target_eq_ok_iff.2 ⟨(widens_put _ hd).locate hl, ?_, ho⟩, ?_⟩
  · rw [hentry]
    simp
  · exact put_eq_self hentry (ne_nil_of_entry hd)

/-- A file that was just read can be written. -/
theorem write_of_read {t : Text} (c : Content) (h : d.read p = .ok t) :
    ∃ place, d.locate p = .ok place ∧ d.entry place = some (.file (.text t)) ∧
      d.write p c = .ok (d.put place (.file c)) := by
  obtain ⟨place, hl, he, ho⟩ := read_eq_ok_iff.1 h
  refine ⟨place, hl, he, write_eq_ok_iff.2 ⟨place, target_eq_ok_iff.2 ⟨hl, ?_, ho⟩, rfl⟩⟩
  rw [he]
  simp

/-! ## Making directories -/

/-- A new directory where nothing stood, and where some first names of the route lead. -/
def Made (r : Route) (d e : Disk) (l : Location) : Prop :=
  d.entry l = none ∧ e.entry l = some .directory ∧ ∃ names, names <+: r.names ∧ e.reach ⟨r.absolute, names⟩ = .ok l

/-- Nothing has changed but that directories on the route were made. -/
structure Prepared (r : Route) (d e : Disk) : Prop where
  cwd : e.cwd = d.cwd
  entries : ∀ l, e.entry l = d.entry l ∨ Made r d e l

theorem Prepared.refl (r : Route) (d : Disk) : Prepared r d d := ⟨rfl, fun _ => .inl rfl⟩

theorem Prepared.widens (h : Prepared r d e) : Widens d e := by
  refine ⟨h.cwd, fun l hl => ?_⟩
  rcases h.entries l with he | ⟨-, he, -⟩
  · rw [he, hl]
  · exact he

theorem Prepared.trans (h : Prepared r d e) (h' : Prepared r e f) : Prepared r d f := by
  refine ⟨h'.cwd.trans h.cwd, fun l => ?_⟩
  rcases h'.entries l with hf | ⟨he, hf, hway⟩
  · rcases h.entries l with he | ⟨hd, he, names, hn, hr⟩
    · exact .inl (hf.trans he)
    · exact .inr ⟨hd, hf.trans he, names, hn, h'.widens.reach hr⟩
  · rcases h.entries l with hd | ⟨-, hd, -⟩
    · exact .inr ⟨hd ▸ he, hf, hway⟩
    · rw [hd] at he
      cases he

theorem Prepared.of_prefix {names : List Text} (h : Prepared ⟨r.absolute, names⟩ d e) (hn : names <+: r.names) :
    Prepared r d e := by
  refine ⟨h.cwd, fun l => (h.entries l).imp id ?_⟩
  intro h
  obtain ⟨hd, he, ms, hms, hr⟩ := h
  exact ⟨hd, he, ms, hms.trans hn, hr⟩

theorem prepared_makeDirectory (h : d.makeDirectory r = .ok e) : Prepared r d e := by
  obtain ⟨place, hr, hnone, rfl⟩ := makeDirectory_eq_ok_iff.1 h
  have hd : d.entry place ≠ some .directory := by rw [hnone]; simp
  have hput := fun other => entry_put d (ne_nil_of_entry hd) other .directory
  refine ⟨rfl, fun l => ?_⟩
  by_cases hl : l = place
  · subst hl
    exact .inr ⟨hnone, by rw [hput, if_pos rfl], r.names, List.prefix_refl _, (widens_put _ hd).reach hr⟩
  · exact .inl (by rw [hput, if_neg hl])

theorem prepared_makeAll (d : Disk) (absolute : Bool) (names : List Text) :
    Prepared ⟨absolute, names.reverse⟩ d (d.makeAll absolute names).1 := by
  induction names with
  | nil => exact .refl _ d
  | cons n above ih =>
    have habove : Prepared ⟨absolute, (n :: above).reverse⟩ d (d.makeAll absolute above).1 :=
      ih.of_prefix (by simp)
    rw [makeAll]
    split
    · next h => exact prepared_makeDirectory h
    · split
      · next h => rwa [h] at habove
      · next e h =>
        rw [h] at habove
        split
        · next h' => exact habove.trans (prepared_makeDirectory h')
        · exact habove
    · exact .refl _ d

theorem prepared_makeParents (d : Disk) (p : Path) : Prepared (parentOf p) d (d.makeParents p).1 := by
  rw [makeParents]
  split
  · exact .refl _ d
  · have h := prepared_makeAll d (parentOf p).absolute (parentOf p).names.reverse
    rwa [List.reverse_reverse] at h

/-- Where a path leads, its parents are there. -/
theorem makeParents_eq_self (h : d.locate p = .ok place) : d.makeParents p = (d, .ok ()) := by
  rw [makeParents]
  refine if_pos ?_
  rcases List.eq_nil_or_concat (Path.names p) with hn | ⟨names, n, hn⟩
  · exact .inl (by rw [parentOf, hn]; rfl)
  · rw [List.concat_eq_append] at hn
    obtain ⟨-, hr⟩ := locate_eq_ok_iff.1 h
    rw [reach, routeOf, hn] at hr
    obtain ⟨m, hm, hlast⟩ := follow_append.1 hr
    have hreach : d.reach (parentOf p) = .ok m := by
      rw [reach, parentOf, hn, List.dropLast_concat]
      exact hm
    refine .inr ?_
    simp only [occupied, hreach, (follow_cons.1 hlast).1, Option.isSome_some]

end Replay.Disk
