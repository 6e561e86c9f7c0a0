/-
  Replay.Proofs.Deploy.RecordPaths — which deployments have their records in one file.

  Joining a part that does not begin with a slash writes it behind the `folder` of the base:
  the base with a slash, unless it is empty or has one. So a path without a slash in its
  parts falls apart again at its last slashes, and the digits of a chain name the chain.
  An empty script adds no level, which shows in the number of slashes.

  As paths, an empty script and a dot are the same (`empty_script_shares_with_dot`): neither
  adds a name. Only in front of everything, in an empty directory, does the dot count. All
  other scripts, and all chains and functions, are told apart by the names along the path.

  On a disk the directory of both paths is one place, and each further name leads one level
  down. An empty script and a dot lead nowhere, and two dots lead up, at most as far as the
  root. Such scripts can lead to one file; a script that is the name of a directory shares
  its files with no other.

  Proved here: `join_eq`, `folder_append`, `names_join`, `startsHere_join`, `follow_names`,
  `same_recordPath_iff`, `recordPath_apart`.
-/

import Replay.Deploy.Record
import Replay.Proofs.Files.Frames
import Replay.Proofs.Text.Digits
import Replay.Proofs.Text.Marks

namespace Replay

open Text

namespace Path

/-! ## Joining -/

/-- A path as it stands in front of a part. -/
def folder (p : Path) : Path := if p = [] ∨ p.getLast? = some '/' then p else p ++ ['/']

variable {base part a b s t : Path}

theorem isAbsolute_eq_false (h : '/' ∉ s) : isAbsolute s = false := by
  cases s with
  | nil => rfl
  | cons c s =>
    have hc : c ≠ '/' := fun hc => h (hc ▸ List.mem_cons_self)
    simp [isAbsolute, hc]

theorem folder_eq_self {p : Path} (h : p = [] ∨ p.getLast? = some '/') : folder p = p := if_pos h

theorem folder_eq_append {p : Path} (h : ¬ (p = [] ∨ p.getLast? = some '/')) : folder p = p ++ ['/'] := if_neg h

theorem join_eq (h : isAbsolute part = false) : join base part = folder base ++ part := by
  rw [join, h, if_neg (by simp), folder]
  split
  · rfl
  · simp

theorem folder_of_name (h : '/' ∉ s) (hs : s ≠ []) : folder s = s ++ ['/'] := by
  refine folder_eq_append ?_
  rintro (rfl | hl)
  · exact hs rfl
  · exact h (List.mem_of_getLast? hl)

theorem getLast?_folder (p : Path) : ∀ c ∈ (folder p).getLast?, c = '/' := by
  intro c hc
  rw [folder] at hc
  split at hc
  · next h =>
    rcases h with rfl | h
    · cases hc
    · exact (Option.some.inj (h.symm.trans hc)).symm
  · simpa [eq_comm] using hc

theorem folder_folder (p : Path) : folder (folder p) = folder p := by
  by_cases hp : folder p = []
  · exact folder_eq_self (.inl hp)
  · have hlast := List.getLast?_eq_some_getLast hp
    rw [getLast?_folder p _ hlast] at hlast
    exact folder_eq_self (.inr hlast)

/-- What stands behind a folder decides what follows it. -/
theorem folder_append (p s : Path) : folder (folder p ++ s) = folder p ++ folder s := by
  by_cases hs : s = []
  · subst hs
    rw [List.append_nil, folder_folder]
    exact (List.append_nil _).symm
  · have hlast : (folder p ++ s).getLast? = s.getLast? := by
      rw [List.getLast?_append, List.getLast?_eq_some_getLast hs]
      rfl
    by_cases hl : s.getLast? = some '/'
    · rw [folder_eq_self (.inr hl), folder_eq_self (.inr (hlast.trans hl))]
    · rw [folder_eq_append (p := s) (by simp [hs, hl]), folder_eq_append (by simp [hs, hlast, hl]), List.append_assoc]

/-- The last part of a path is what stands behind its last slash. -/
theorem last_part_unique (h : folder a ++ s = folder b ++ t) (hs : '/' ∉ s) (ht : '/' ∉ t) :
    folder a = folder b ∧ s = t := by
  have hplain : ∀ r : Path, '/' ∉ r → ∀ c ∈ r, (c != '/') = true := fun r hr c hc =>
    bne_iff_ne.2 fun he => hr (he ▸ hc)
  have hslash : ∀ p : Path, ∀ c ∈ (folder p).getLast?, (c != '/') = false := fun p c hc =>
    bne_eq_false_iff_eq.2 (getLast?_folder p c hc)
  exact last_run_unique h (hplain s hs) (hslash a) (hplain t ht) (hslash b)

theorem part_unique (h : folder (folder a ++ s) = folder (folder b ++ t)) (hs : '/' ∉ s) (ht : '/' ∉ t)
    (hs' : s ≠ []) (ht' : t ≠ []) : folder a = folder b ∧ s = t := by
  rw [folder_append, folder_append, folder_of_name hs hs', folder_of_name ht ht', ← List.append_assoc,
    ← List.append_assoc] at h
  exact last_part_unique (List.append_cancel_right h) hs ht

theorem folder_injective (h : folder s = folder t) (hs : '/' ∉ s) (ht : '/' ∉ t) : s = t := by
  by_cases hs' : s = []
  · by_cases ht' : t = []
    · rw [hs', ht']
    · rw [hs', folder_of_name ht ht'] at h
      simp [folder] at h
  · by_cases ht' : t = []
    · rw [ht', folder_of_name hs hs'] at h
      simp [folder] at h
    · rw [folder_of_name hs hs', folder_of_name ht ht'] at h
      exact List.append_cancel_right h

/-! ## Names along a joined path -/

theorem pieces_ne_nil (p : Path) : pieces p ≠ [] := by
  cases p with
  | nil => simp [pieces]
  | cons c r =>
    rw [pieces]
    split
    · simp
    · cases pieces r <;> simp [consFirst]

theorem pieces_append_slash (p q : Path) : pieces (p ++ '/' :: q) = pieces p ++ pieces q := by
  induction p with
  | nil => rfl
  | cons c p ih =>
    simp only [List.cons_append, pieces, ih]
    split
    · rfl
    · cases hp : pieces p with
      | nil => exact absurd hp (pieces_ne_nil p)
      | cons l ls => rfl

theorem pieces_of_not_mem (h : '/' ∉ s) : pieces s = [s] := by
  induction s with
  | nil => rfl
  | cons c s ih =>
    simp only [List.mem_cons, not_or] at h
    rw [pieces, if_neg (Ne.symm h.1), ih h.2]
    rfl

theorem names_append_slash (p q : Path) : names (p ++ '/' :: q) = names p ++ names q := by
  rw [names, pieces_append_slash, List.filter_append]
  rfl

theorem names_folder_append (p q : Path) : names (folder p ++ q) = names p ++ names q := by
  rw [folder]
  split
  · next h =>
    rcases h with rfl | h
    · rfl
    · obtain ⟨r, rfl⟩ := List.getLast?_eq_some_iff.1 h
      have hr : names (r ++ ['/']) = names r := by
        rw [names_append_slash]
        exact List.append_nil _
      rw [hr, List.append_assoc]
      exact names_append_slash r q
  · rw [List.append_assoc]
    exact names_append_slash p q

theorem names_join (h : isAbsolute part = false) : names (join base part) = names base ++ names part := by
  rw [join_eq h, names_folder_append]

theorem isAbsolute_join (h : isAbsolute part = false) : isAbsolute (join base part) = isAbsolute base := by
  rw [join_eq h, folder]
  cases base with
  | nil => exact h
  | cons c r => split <;> rfl

theorem head?_pieces_append_slash (p q : Path) : (pieces (p ++ '/' :: q)).head? = (pieces p).head? := by
  rw [pieces_append_slash]
  cases h : pieces p with
  | nil => exact absurd h (pieces_ne_nil p)
  | cons l ls => rfl

/-- A joined path begins as its base does. -/
theorem startsHere_join (h : isAbsolute part = false) (hb : base ≠ []) :
    startsHere (join base part) = startsHere base := by
  have hhead : (pieces (folder base ++ part)).head? = (pieces base).head? := by
    rw [folder]
    split
    · next hf =>
      obtain ⟨r, rfl⟩ := List.getLast?_eq_some_iff.1 (hf.resolve_left hb)
      rw [List.append_assoc, List.singleton_append, head?_pieces_append_slash, head?_pieces_append_slash r []]
    · rw [List.append_assoc, List.singleton_append, head?_pieces_append_slash]
  rw [join_eq h, startsHere, hhead, startsHere]

theorem join_ne_nil (h : isAbsolute part = false) (hb : base ≠ []) : join base part ≠ [] := by
  rw [join_eq h, folder]
  split <;> simp [hb]

theorem startsHere_eq_isDot (h : '/' ∉ s) : startsHere s = isDot s := by
  rw [startsHere, pieces_of_not_mem h, isDot]
  simp

/-- A part of this kind adds no name to a path. -/
def Nameless (s : Text) : Prop := s = [] ∨ s = ['.']

theorem names_of_nameless (h : Nameless s) : names s = [] := by
  rcases h with rfl | rfl <;> rfl

theorem names_of_named (h : '/' ∉ s) (hs : ¬ Nameless s) : names s = [s] := by
  rw [Nameless, not_or] at hs
  simp [names, pieces_of_not_mem h, isDot, hs.1, hs.2]

theorem names_eq_iff (hs : '/' ∉ s) (ht : '/' ∉ t) : names s = names t ↔ s = t ∨ Nameless s ∧ Nameless t := by
  by_cases hn : Nameless s <;> by_cases hm : Nameless t
  · simp [names_of_nameless hn, names_of_nameless hm, hn, hm]
  · have hne : s ≠ t := fun he => hm (he ▸ hn)
    simp [names_of_nameless hn, names_of_named ht hm, hm, hne]
  · have hne : s ≠ t := fun he => hn (he ▸ hm)
    simp [names_of_named hs hn, names_of_nameless hm, hn, hne]
  · simp [names_of_named hs hn, names_of_named ht hm, hn]

/-- The name of something in a directory, when no slash is in it. -/
def IsEntry (s : Text) : Prop := s ≠ [] ∧ isDot s = false ∧ isDotDot s = false

theorem IsEntry.named (hs : IsEntry s) : ¬ Nameless s := by
  rintro (rfl | rfl)
  · exact hs.1 rfl
  · cases hs.2.1

theorem names_of_entry (h : '/' ∉ s) (hs : IsEntry s) : names s = [s] := names_of_named h hs.named

theorem names_of_not_entry (h : '/' ∉ s) (hs : ¬ IsEntry s) : names s = [] ∨ names s = [s] ∧ isDotDot s = true := by
  by_cases hn : Nameless s
  · exact .inl (names_of_nameless hn)
  · refine .inr ⟨names_of_named h hn, ?_⟩
    rw [Nameless, not_or] at hn
    cases hup : isDotDot s with
    | true => rfl
    | false => exact absurd ⟨hn.1, decide_eq_false hn.2, hup⟩ hs

end Path

namespace Disk

open Replay.Path

variable {d : Disk} {place l : Location}

/-- A part without a slash leads down by its name, or else it does not lead down. -/
theorem follow_names {s : Text} (hs : '/' ∉ s) (h : d.follow place (names s) = .ok l) :
    (IsEntry s ∧ l = place ++ [s]) ∨ (¬ IsEntry s ∧ l.length ≤ place.length) := by
  by_cases he : IsEntry s
  · rw [names_of_entry hs he, follow_cons, he.2.2] at h
    exact .inl ⟨he, (Except.ok.inj h.2).symm⟩
  · refine .inr ⟨he, ?_⟩
    rcases names_of_not_entry hs he with hn | ⟨hn, hup⟩
    · rw [hn] at h
      obtain rfl := Except.ok.inj h
      exact Nat.le_refl _
    · rw [hn, follow_cons, hup] at h
      obtain rfl := Except.ok.inj h.2
      simp

end Disk

namespace Deploy

open Replay.Path

/-! ## Records -/

/-- The file of a function's record. -/
def fileName (function : Text) : Text := function ++ "-latest.json".toList

variable {directory script function : Text} {chain : Nat}

theorem fileName_injective {f g : Text} (h : fileName f = fileName g) : f = g := List.append_cancel_right h

theorem isAbsolute_fileName (h : isAbsolute function = false) : isAbsolute (fileName function) = false := by
  cases function with
  | nil => decide
  | cons c f => exact h

theorem slash_not_mem_fileName (h : '/' ∉ function) : '/' ∉ fileName function := by
  rw [fileName, List.mem_append, not_or]
  exact ⟨h, by decide⟩

/-- The ending is longer than two dots. -/
theorem isEntry_fileName (f : Text) : IsEntry (fileName f) := by
  have hlen : 2 < (fileName f).length := by
    rw [fileName, List.length_append]
    exact Nat.lt_add_left _ (by decide)
  have hne : ∀ s : Text, s.length ≤ 2 → fileName f ≠ s := by
    rintro s hs rfl
    omega
  exact ⟨hne _ (by decide), decide_eq_false (hne _ (by decide)), decide_eq_false (hne _ (by decide))⟩

theorem slash_not_mem_decimal (n : Nat) : '/' ∉ decimal n := by
  intro h
  exact absurd (isAsciiDigit_of_mem_decimal h) (by decide)

theorem isEntry_decimal (n : Nat) : IsEntry (decimal n) := by
  obtain ⟨c, ds, hd, hc⟩ := exists_decimal n
  have hdot : c ≠ '.' := by
    rintro rfl
    exact absurd hc (by decide)
  rw [hd]
  exact ⟨by simp, by simp [isDot, hdot], by simp [isDotDot, hdot]⟩

theorem recordPath_eq (h : isAbsolute function = false) : recordPath directory script chain function =
    folder (folder (join directory script) ++ decimal chain) ++ fileName function := by
  rw [recordPath, ← fileName, join_eq (isAbsolute_fileName h),
    join_eq (isAbsolute_eq_false (slash_not_mem_decimal chain))]

/-- Behind the script comes the chain, whatever the function is. -/
theorem names_recordPath (hf : isAbsolute function = false) : names (recordPath directory script chain function) =
    names (join directory script) ++ decimal chain :: names (fileName function) := by
  rw [recordPath, ← fileName, names_join (isAbsolute_fileName hf),
    names_join (isAbsolute_eq_false (slash_not_mem_decimal chain)),
    names_of_entry (slash_not_mem_decimal chain) (isEntry_decimal chain)]
  simp

theorem names_recordPath_plain (hs : '/' ∉ script) (hf : '/' ∉ function) :
    names (recordPath directory script chain function) =
      names directory ++ (names script ++ [decimal chain, fileName function]) := by
  rw [names_recordPath (isAbsolute_eq_false hf), names_join (isAbsolute_eq_false hs),
    names_of_entry (slash_not_mem_fileName hf) (isEntry_fileName function), List.append_assoc]

theorem isAbsolute_recordPath (hs : '/' ∉ script) (hf : '/' ∉ function) :
    isAbsolute (recordPath directory script chain function) = isAbsolute directory := by
  rw [recordPath, ← fileName, isAbsolute_join (isAbsolute_fileName (isAbsolute_eq_false hf)),
    isAbsolute_join (isAbsolute_eq_false (slash_not_mem_decimal chain)), isAbsolute_join (isAbsolute_eq_false hs)]

theorem startsHere_recordPath (hs : '/' ∉ script) (hf : '/' ∉ function) :
    startsHere (recordPath directory script chain function) =
      if directory = [] then isDot script else startsHere directory := by
  have hscript := isAbsolute_eq_false hs
  have hchain := isAbsolute_eq_false (slash_not_mem_decimal chain)
  have hfile := isAbsolute_fileName (isAbsolute_eq_false hf)
  have hwhole : recordPath directory script chain function =
      join (join (join directory script) (decimal chain)) (fileName function) := rfl
  by_cases hd : directory = []
  · subst hd
    have hjoin : join [] script = script := join_eq hscript
    rw [if_pos rfl, hwhole, hjoin]
    by_cases he : script = []
    · subst he
      have hfirst : join [] (decimal chain) = decimal chain := join_eq hchain
      rw [hfirst, startsHere_join hfile (isEntry_decimal chain).1, startsHere_eq_isDot (slash_not_mem_decimal chain)]
      exact (isEntry_decimal chain).2.1
    · rw [startsHere_join hfile (join_ne_nil hchain he), startsHere_join hchain he, startsHere_eq_isDot hs]
  · rw [if_neg hd, hwhole, startsHere_join hfile (join_ne_nil hchain (join_ne_nil hscript hd)),
      startsHere_join hchain (join_ne_nil hscript hd), startsHere_join hscript hd]

/-- Where the record of a deployment stands: in the directory, then where the script leads. -/
theorem exists_of_locate {d : Disk} {l : Location} (hs : '/' ∉ script) (hf : '/' ∉ function)
    (h : d.locate (recordPath directory script chain function) = .ok l) :
    ∃ root place, d.follow (d.start (isAbsolute directory)) (names directory) = .ok root ∧
      d.follow root (names script) = .ok place ∧ l = place ++ [decimal chain, fileName function] := by
  obtain ⟨-, hr⟩ := Disk.locate_eq_ok_iff.1 h
  rw [Disk.reach, Disk.routeOf, isAbsolute_recordPath hs hf, names_recordPath_plain hs hf] at hr
  obtain ⟨root, hroot, hr⟩ := Disk.follow_append.1 hr
  obtain ⟨place, hplace, hr⟩ := Disk.follow_append.1 hr
  refine ⟨root, place, hroot, hplace, ?_⟩
  rw [Disk.follow_cons, (isEntry_decimal chain).2.2, Disk.follow_cons, (isEntry_fileName function).2.2] at hr
  simpa [Disk.follow, eq_comm] using hr.2.2

/-! ## Told apart -/

variable {dir s s' f f' : Text} {c c' : Nat}

theorem recordPath_injective (hs : '/' ∉ s) (hs' : '/' ∉ s') (hf : '/' ∉ f) (hf' : '/' ∉ f')
    (h : recordPath dir s c f = recordPath dir s' c' f') : s = s' ∧ c = c' ∧ f = f' := by
  rw [recordPath_eq (isAbsolute_eq_false hf), recordPath_eq (isAbsolute_eq_false hf')] at h
  obtain ⟨h, hfile⟩ := last_part_unique h (slash_not_mem_fileName hf) (slash_not_mem_fileName hf')
  obtain ⟨h, hchain⟩ := part_unique h (slash_not_mem_decimal c) (slash_not_mem_decimal c') (isEntry_decimal c).1
    (isEntry_decimal c').1
  rw [join_eq (isAbsolute_eq_false hs), join_eq (isAbsolute_eq_false hs'), folder_append, folder_append] at h
  exact ⟨folder_injective (List.append_cancel_left h) hs hs', decimal_injective hchain, fileName_injective hfile⟩

/-- In front of the chain both paths have the same names, so the chain is the first to differ. -/
theorem chain_eq_of_same (hf : isAbsolute f = false) (hf' : isAbsolute f' = false)
    (h : Same (recordPath dir s c f) (recordPath dir s c' f')) : c = c' := by
  have hnames := congrArg Components.names h
  simp only [components, names_recordPath hf, names_recordPath hf'] at hnames
  exact decimal_injective (List.cons.inj (List.append_cancel_left hnames)).1

/-- Two deployments of one directory have the same path if they are the same, or if their scripts add no name to it. -/
theorem same_recordPath_iff (hs : '/' ∉ s) (hs' : '/' ∉ s') (hf : '/' ∉ f) (hf' : '/' ∉ f') :
    Same (recordPath dir s c f) (recordPath dir s' c' f') ↔
      c = c' ∧ f = f' ∧ (s = s' ∨ dir ≠ [] ∧ Nameless s ∧ Nameless s') := by
  rw [Same, components, components, Components.mk.injEq, isAbsolute_recordPath hs hf, isAbsolute_recordPath hs' hf',
    startsHere_recordPath hs hf, startsHere_recordPath hs' hf', names_recordPath_plain hs hf,
    names_recordPath_plain hs' hf', List.append_cancel_left_eq]
  constructor
  · rintro ⟨-, hhere, hnames⟩
    obtain ⟨hscript, hrest⟩ := List.append_inj' hnames rfl
    obtain ⟨hchain, hfile⟩ := List.cons.inj hrest
    refine ⟨decimal_injective hchain, fileName_injective (List.cons.inj hfile).1, ?_⟩
    rcases (names_eq_iff hs hs').1 hscript with heq | ⟨hn, hn'⟩
    · exact .inl heq
    · by_cases hd : dir = []
      · rw [if_pos hd, if_pos hd] at hhere
        left
        rcases hn with rfl | rfl <;> rcases hn' with rfl | rfl
        · rfl
        · cases hhere
        · cases hhere
        · rfl
      · exact .inr ⟨hd, hn, hn'⟩
  · rintro ⟨rfl, rfl, rfl | ⟨hd, hn, hn'⟩⟩
    · exact ⟨rfl, rfl, rfl⟩
    · rw [if_neg hd, if_neg hd, names_of_nameless hn, names_of_nameless hn']
      exact ⟨rfl, rfl, rfl⟩

/-- Two scripts of one directory that lead to one place are the same, if one of them names an entry. -/
theorem script_eq_of_follow {d : Disk} {root place : Location} (hs : '/' ∉ s) (hs' : '/' ∉ s')
    (h : d.follow root (names s) = .ok place) (h' : d.follow root (names s') = .ok place) :
    s = s' ∨ ¬ IsEntry s ∧ ¬ IsEntry s' := by
  rcases Disk.follow_names hs h with ⟨-, rfl⟩ | ⟨hn, hle⟩ <;> rcases Disk.follow_names hs' h' with ⟨-, hl⟩ | ⟨hn', hle'⟩
  · exact .inl (by simpa using hl)
  · rw [List.length_append] at hle'
    exact absurd hle' (Nat.not_succ_le_self _)
  · rw [hl, List.length_append] at hle
    exact absurd hle (Nat.not_succ_le_self _)
  · exact .inr ⟨hn, hn'⟩

theorem deployment_eq_of_locate {d : Disk} {l : Location} (hs : '/' ∉ s) (hs' : '/' ∉ s') (hf : '/' ∉ f)
    (hf' : '/' ∉ f') (h : d.locate (recordPath dir s c f) = .ok l) (h' : d.locate (recordPath dir s' c' f') = .ok l) :
    c = c' ∧ f = f' ∧ (s = s' ∨ ¬ IsEntry s ∧ ¬ IsEntry s') := by
  obtain ⟨root, place, hroot, hplace, rfl⟩ := exists_of_locate hs hf h
  obtain ⟨root', place', hroot', hplace', hl⟩ := exists_of_locate hs' hf' h'
  obtain rfl : root = root' := Except.ok.inj (hroot.symm.trans hroot')
  obtain ⟨rfl, hrest⟩ := List.append_inj' hl rfl
  obtain ⟨hchain, hfile⟩ := List.cons.inj hrest
  have hscript := script_eq_of_follow hs hs' hplace hplace'
  exact ⟨decimal_injective hchain, fileName_injective (List.cons.inj hfile).1, hscript⟩

/-- As texts, the record paths of one directory differ for different deployments, as long as scripts and functions hold
    no slash. As paths they differ too, but for an empty script and a dot in a directory that has a name. One script
    has different paths for different chains, also where a function leads through directories. On a disk the paths lead
    to different files, unless both scripts are empty or dots. -/
theorem recordPath_apart (dir : Text) :
    (∀ s s' c c' f f', '/' ∉ s → '/' ∉ s' → '/' ∉ f → '/' ∉ f' →
        recordPath dir s c f = recordPath dir s' c' f' → s = s' ∧ c = c' ∧ f = f') ∧
      (∀ s s' c c' f f', '/' ∉ s → '/' ∉ s' → '/' ∉ f → '/' ∉ f' →
        (Same (recordPath dir s c f) (recordPath dir s' c' f') ↔
          c = c' ∧ f = f' ∧ (s = s' ∨ dir ≠ [] ∧ Nameless s ∧ Nameless s'))) ∧
      (∀ s c c' f f', isAbsolute f = false → isAbsolute f' = false → c ≠ c' →
        ¬ Same (recordPath dir s c f) (recordPath dir s c' f')) ∧
      ∀ s s' c c' f f', '/' ∉ s → '/' ∉ s' → '/' ∉ f → '/' ∉ f' → ∀ (d : Disk) (l : Location),
        d.locate (recordPath dir s c f) = .ok l → d.locate (recordPath dir s' c' f') = .ok l →
          c = c' ∧ f = f' ∧ (s = s' ∨ ¬ IsEntry s ∧ ¬ IsEntry s') :=
  ⟨fun _ _ _ _ _ _ hs hs' hf hf' => recordPath_injective hs hs' hf hf',
    fun _ _ _ _ _ _ hs hs' hf hf' => same_recordPath_iff hs hs' hf hf',
    fun _ _ _ _ _ hf hf' hne h => hne (chain_eq_of_same hf hf' h),
    fun _ _ _ _ _ _ hs hs' hf hf' _ _ => deployment_eq_of_locate hs hs' hf hf'⟩

theorem recordPath_apart_of_empty_script :
    ¬ Same (recordPath "broadcast".toList [] 10 "run".toList)
        (recordPath "broadcast".toList "1".toList 0 "run".toList) ∧
      ¬ Same (recordPath "broadcast".toList "/a.s.sol".toList 1 "1/run".toList)
        (recordPath "broadcast".toList "/a.s.sol".toList 11 "run".toList) := by
  obtain ⟨-, hsame, hchains, -⟩ := recordPath_apart "broadcast".toList
  refine ⟨fun h => ?_, hchains _ 1 11 _ _ rfl rfl (by decide)⟩
  have hequal := (hsame [] "1".toList 10 0 "run".toList "run".toList (by decide) (by decide) (by decide)
    (by decide)).1 h
  exact absurd hequal.1 (by decide)

/-- The record of an empty script is that of a script that is a dot, as a path and on a disk. -/
theorem empty_script_shares_with_dot :
    let broadcast := "broadcast".toList
    let d : Disk := ⟨[], [([broadcast], .directory), ([broadcast, ['1']], .directory)]⟩
    let place := [broadcast, ['1'], "run-latest.json".toList]
    Same (recordPath broadcast [] 1 "run".toList) (recordPath broadcast ['.'] 1 "run".toList) ∧
      d.locate (recordPath broadcast [] 1 "run".toList) = .ok place ∧
      d.locate (recordPath broadcast ['.'] 1 "run".toList) = .ok place := ⟨by decide, rfl, rfl⟩

end Deploy
end Replay
