/-
  Replay.Proofs.Deploy.Rebuild — an address book built and written, and built again.

  Building only reads, so its result is a function of what the record paths read as
  (`entered`). Writing makes the directories above the output, then puts one file. Every
  record that was read is still read as before, unless the output is written to its place:
  no directory was lost, and nothing that stood has changed but the output. So building and
  writing again gives the same book and writes what is there already.

  A run fails without a trace but for directories, unless its one write breaks off: then the
  output holds the first bytes of the book, whatever it held before, also if nothing stood
  there. Where the output leads counts once its directories are made, since a new directory
  with two dots behind it can lead to a record.

  Proved here: `run_build`, `publish_cases`, `publish_runs`, `publish_breaks_off`,
  `publish_again`, and what can be lost: `publish_may_spoil_a_file`.
-/

import Replay.Proofs.Files.Frames
import Replay.Proofs.Files.Scripts
import Replay.Deploy.Build

namespace Replay.Deploy

open Text Script

/-! ## Building -/

/-- The record at a path, given what paths read as. -/
def recordAt (content : Path → Except IoFault Text) (p : Path) : Except Problem Record :=
  match content p with
  | .error fault => .error (.io (some (.readRecord p)) fault)
  | .ok t => (Record.parse t).mapError (.record p)

/-- The book with a record entered, if all of it can be. -/
def extended (rename : Rename) (b : Book) (r : Record) : Except Problem Book :=
  match b.extend rename r with
  | (_, some fault) => .error (.deployment fault)
  | (b, none) => .ok b

/-- A book with the records at some paths entered, in order. -/
def entered (rename : Rename) (content : Path → Except IoFault Text) : Book → List Path → Except Problem Book
  | b, [] => .ok b
  | b, p :: ps => do
    let r ← recordAt content p
    let b ← extended rename b r
    entered rename content b ps

theorem run_readRecord (p : Path) (d : Disk) : (readRecord p).run d = ⟨[], d, recordAt d.read p⟩ := by
  cases h : d.read p with
  | error fault =>
    rw [recordAt, h]
    exact run_bind_error (run_readText h _)
  | ok t =>
    rw [recordAt, h, readRecord, run_bind_ok (run_readText h _), run_ofExcept]
    rfl

theorem run_enter (rename : Rename) (b : Book) (r : Record) (d : Disk) :
    ((enter rename b r).run d) = ⟨b.extendReport rename r, d, extended rename b r⟩ := by
  rw [enter, run_notes_bind, extended]
  rcases b.extend rename r with ⟨b', _ | fault⟩ <;> simp [run, Outcome.after, pure]

theorem run_enterPaths (rename : Rename) (b : Book) (ps : List Path) (d : Disk) :
    ((enterPaths rename b ps).run d).result = entered rename d.read b ps ∧
      ((enterPaths rename b ps).run d).disk = d := by
  induction ps generalizing b with
  | nil => exact ⟨rfl, rfl⟩
  | cons p ps ih =>
    have hr := run_readRecord p d
    rw [enterPaths, run_notes_bind, entered]
    cases hrecord : recordAt d.read p with
    | error problem =>
      rw [hrecord] at hr
      rw [run_bind_error hr, error_bind]
      exact ⟨rfl, rfl⟩
    | ok r =>
      rw [hrecord] at hr
      rw [run_bind_ok hr, ok_bind]
      have he := run_enter rename b r d
      cases hbook : extended rename b r with
      | error problem =>
        rw [hbook] at he
        rw [run_bind_error he, error_bind]
        exact ⟨rfl, rfl⟩
      | ok b' =>
        rw [hbook] at he
        rw [run_bind_ok he, ok_bind]
        exact ih b'

theorem run_build (c : AddressConfig) (chain : Nat) (d : Disk) :
    ((build c chain).run d).result = entered c.rename d.read .empty (c.recordPaths chain) ∧
      ((build c chain).run d).disk = d := by
  obtain ⟨hresult, hdisk⟩ := run_enterPaths c.rename .empty (c.recordPaths chain) d
  rw [build, run_bind, ← hresult]
  cases hb : ((enterPaths c.rename .empty (c.recordPaths chain)).run d).result with
  | error p => exact ⟨rfl, hdisk⟩
  | ok b =>
    simp only [run_notes_bind]
    exact ⟨rfl, hdisk⟩

theorem readsOnly_enterPaths (rename : Rename) (b : Book) (ps : List Path) : (enterPaths rename b ps).ReadsOnly := by
  induction ps generalizing b with
  | nil => trivial
  | cons p ps ih =>
    have hread : (readRecord p).ReadsOnly := .bind (readsOnly_ofExcept _) fun _ => readsOnly_ofExcept _ _
    have henter : ∀ r, (enter rename b r).ReadsOnly := fun r => .bind (readsOnly_notes _) fun _ => by
      rcases b.extend rename r with ⟨b', _ | fault⟩ <;> trivial
    exact .bind (readsOnly_notes _) fun _ => .bind hread fun r => .bind (henter r) ih

theorem readsOnly_build (c : AddressConfig) (chain : Nat) : (build c chain).ReadsOnly :=
  .bind (readsOnly_enterPaths _ _ _) fun _ => .bind (readsOnly_notes _) fun _ => trivial

/-- A book is entered only from files that can all be read. -/
theorem read_of_entered {rename : Rename} {content : Path → Except IoFault Text} {b b' : Book} {ps : List Path}
    (h : entered rename content b ps = .ok b') : ∀ p ∈ ps, ∃ t, content p = .ok t := by
  induction ps generalizing b with
  | nil => simp
  | cons p ps ih =>
    obtain ⟨r, hr, h⟩ := bind_eq_ok_iff.1 h
    obtain ⟨b'', -, h⟩ := bind_eq_ok_iff.1 h
    refine List.forall_mem_cons.2 ⟨?_, ih h⟩
    cases hp : content p with
    | error fault =>
      rw [recordAt, hp] at hr
      cases hr
    | ok t => exact ⟨t, rfl⟩

theorem entered_congr {rename : Rename} {content content' : Path → Except IoFault Text} {ps : List Path}
    (h : ∀ p ∈ ps, content' p = content p) (b : Book) :
    entered rename content' b ps = entered rename content b ps := by
  induction ps generalizing b with
  | nil => rfl
  | cons p ps ih =>
    obtain ⟨hp, hps⟩ := List.forall_mem_cons.1 h
    simp only [entered, recordAt, hp, ih hps]

/-! ## Building and writing -/

/-- Build the book of a chain and write it. -/
def publish (c : AddressConfig) (chain : Nat) (output : Path) : Script Book := do
  let b ← build c chain
  b.write output
  return b

variable {c : AddressConfig} {chain : Nat} {output : Path} {d m e : Disk} {b : Book}

theorem publish_unbuilt {p : Problem} (output : Path)
    (h : entered c.rename d.read .empty (c.recordPaths chain) = .error p) :
    ((publish c chain output).run d).result = .error p ∧ ((publish c chain output).run d).disk = d := by
  obtain ⟨hresult, hdisk⟩ := run_build c chain d
  rw [publish, run_bind, hresult.trans h]
  exact ⟨rfl, hdisk⟩

/-- Behind the building, what is left is to write the book. -/
theorem publish_built (output : Path) (h : entered c.rename d.read .empty (c.recordPaths chain) = .ok b) :
    ((publish c chain output).run d).result = ((b.write output).run d).result.map (fun _ => b) ∧
      ((publish c chain output).run d).disk = ((b.write output).run d).disk := by
  obtain ⟨hresult, hdisk⟩ := run_build c chain d
  rw [publish, run_bind, hresult.trans h, hdisk]
  exact ⟨result_bind_pure .., disk_bind_pure ..⟩

theorem run_write (hm : d.makeParents output = (m, .ok ())) (hw : m.write output (.text b.text) = .ok e) :
    (b.write output).run d = ⟨[], e, .ok ()⟩ := by
  have hrun := run_ensureParents output d
  rw [hm] at hrun
  rw [Book.write, run_bind_ok hrun, run_writeText hw]
  rfl

/-- A book that is not written leaves at most the directories that were made for it. -/
theorem run_write_cases (b : Book) (output : Path) (d : Disk) :
    (∃ m e, d.makeParents output = (m, .ok ()) ∧ m.write output (.text b.text) = .ok e) ∨
      ∃ problem, (b.write output).run d = ⟨[], (d.makeParents output).1, .error problem⟩ := by
  have hrun := run_ensureParents output d
  rcases hm : d.makeParents output with ⟨m, o⟩
  rw [hm] at hrun
  cases o with
  | error fault => exact .inr ⟨_, run_bind_error hrun⟩
  | ok =>
    cases hw : m.write output (.text b.text) with
    | error fault =>
      rw [Book.write, run_bind_ok hrun, run_writeText_error hw]
      exact .inr ⟨_, rfl⟩
    | ok e => exact .inl ⟨m, e, rfl, hw⟩

theorem publish_written (h : entered c.rename d.read .empty (c.recordPaths chain) = .ok b)
    (hm : d.makeParents output = (m, .ok ())) (hw : m.write output (.text b.text) = .ok e) :
    ((publish c chain output).run d).result = .ok b ∧ ((publish c chain output).run d).disk = e := by
  obtain ⟨hresult, hdisk⟩ := publish_built output h
  rw [hresult, hdisk, run_write hm hw]
  exact ⟨rfl, rfl⟩

/-- Either the book is written, or at most directories were made for it. -/
theorem publish_cases (c : AddressConfig) (chain : Nat) (output : Path) (d : Disk) :
    (∃ b m e, entered c.rename d.read .empty (c.recordPaths chain) = .ok b ∧ d.makeParents output = (m, .ok ()) ∧
        m.write output (.text b.text) = .ok e) ∨
      (∃ problem, ((publish c chain output).run d).result = .error problem) ∧
        Disk.Prepared (Disk.parentOf output) d ((publish c chain output).run d).disk := by
  cases h : entered c.rename d.read .empty (c.recordPaths chain) with
  | error p =>
    obtain ⟨hresult, hdisk⟩ := publish_unbuilt output h
    rw [hresult, hdisk]
    exact .inr ⟨⟨p, rfl⟩, .refl _ d⟩
  | ok b =>
    rcases run_write_cases b output d with ⟨m, e, hm, hw⟩ | ⟨problem, hrun⟩
    · exact .inl ⟨b, m, e, rfl, hm, hw⟩
    · obtain ⟨hresult, hdisk⟩ := publish_built output h
      rw [hresult, hdisk, hrun]
      exact .inr ⟨⟨problem, rfl⟩, Disk.prepared_makeParents d output⟩

/-! ## Writes that break off -/

/-- A book is written as `run` has it, or its write breaks off. -/
theorem write_runs {o : Outcome Unit} (h : (b.write output).Runs d o) : o = (b.write output).run d ∨
    ∃ m e n problem, d.makeParents output = (m, .ok ()) ∧ m.breakOff output b.text n = .ok e ∧ n < bytes b.text ∧
      o = ⟨[], e, .error problem⟩ := by
  obtain ⟨first, hfirst, hrest⟩ := exists_of_runs_bind h
  obtain rfl : first = (ensureParents output).run d := by
    cases hfirst with
    | makeParents hp => exact (readsOnly_ofExcept _ _).eq_run hp
  have hrun := run_ensureParents output d
  rcases hm : d.makeParents output with ⟨m, fault | u⟩ <;> rw [hm] at hrun <;> rw [hrun] at hrest
  · rw [Book.write, run_bind_error hrun]
    rcases hrest with ⟨p, hp, rfl⟩ | ⟨a, rest, ha, -, -⟩
    · cases hp
      exact .inl rfl
    · cases ha
  · rw [Book.write, run_bind_ok hrun]
    rcases hrest with ⟨p, hp, -⟩ | ⟨a, rest, -, hwrite, rfl⟩
    · cases hp
    · cases hwrite with
      | written hw hr =>
        rw [run_writeText hw, (readsOnly_ofExcept _ _).eq_run hr]
        exact .inl rfl
      | refused hw hr =>
        rw [run_writeText_error hw, (readsOnly_ofExcept _ _).eq_run hr]
        exact .inl rfl
      | brokenOff hn hw hr =>
        rw [(readsOnly_ofExcept _ _).eq_run hr]
        exact .inr ⟨m, _, _, _, rfl, hw, hn, rfl⟩

/-- A run is the one that `run` has, or the book is built and its write breaks off. -/
theorem publish_runs {o : Outcome Book} (h : (publish c chain output).Runs d o) :
    o = (publish c chain output).run d ∨
      ∃ b m n problem, entered c.rename d.read .empty (c.recordPaths chain) = .ok b ∧
        d.makeParents output = (m, .ok ()) ∧ m.breakOff output b.text n = .ok o.disk ∧ n < bytes b.text ∧
        o.result = .error problem := by
  obtain ⟨hresult, hdisk⟩ := run_build c chain d
  obtain ⟨first, hfirst, hrest⟩ := exists_of_runs_bind h
  obtain rfl := (readsOnly_build c chain).eq_run hfirst
  rw [publish, run_bind]
  rcases hrest with ⟨p, hp, rfl⟩ | ⟨b, rest, hb, hrest, rfl⟩
  · rw [hp]
    exact .inl rfl
  · rw [hb]
    rw [hb] at hresult
    rw [hdisk] at hrest ⊢
    obtain ⟨written, hwritten, hlast⟩ := exists_of_runs_bind hrest
    rcases write_runs hwritten with rfl | ⟨m, e, n, problem, hm, hw, hn, rfl⟩
    · refine .inl (congrArg (Outcome.after _) ?_)
      rw [run_bind]
      rcases hlast with ⟨p, hp, rfl⟩ | ⟨u, last, hu, hlast, rfl⟩
      · rw [hp]
      · rw [hu]
        cases hlast
        rfl
    · rcases hlast with ⟨p, hp, rfl⟩ | ⟨u, last, hu, -, -⟩
      · exact .inr ⟨b, m, n, p, hresult.symm, hm, hw, hn, rfl⟩
      · cases hu

/-- And it can break off behind any number of bytes, with any fault. -/
theorem publish_breaks_off {n : Nat} (fault : IoFault)
    (hentered : entered c.rename d.read .empty (c.recordPaths chain) = .ok b)
    (hm : d.makeParents output = (m, .ok ())) (hw : m.breakOff output b.text n = .ok e) (hn : n < bytes b.text) :
    ∃ o, (publish c chain output).Runs d o ∧ o.disk = e ∧
      o.result = .error (.io (some (.writeBook output)) fault) := by
  obtain ⟨hresult, hdisk⟩ := run_build c chain d
  have hrun := run_ensureParents output d
  rw [hm] at hrun
  have hparents := runs_run (ensureParents output) d
  rw [hrun] at hparents
  have hwrite : (writeText (some (.writeBook output)) output b.text).Runs m
      ⟨[], e, .error (.io (some (.writeBook output)) fault)⟩ := .brokenOff hn hw (.fail _ e)
  have hbook : (b.write output).Runs d _ := runs_bind_ok hparents rfl hwrite
  rw [← hdisk] at hbook
  have hlast := runs_bind_error (f := fun _ => pure b) hbook rfl
  exact ⟨_, runs_bind_ok (runs_run (build c chain) d) (hresult.trans hentered) hlast, rfl, rfl⟩

/-! ## Again -/

/-- One file stands where the output now leads; anything else has not changed, or is a directory made for it. -/
def Written (output : Path) (content : Content) (d e : Disk) : Prop :=
  ∃ place, e.locate output = .ok place ∧ e.entry place = some (.file content) ∧ d.entry place ≠ some .directory ∧
    e.cwd = d.cwd ∧ ∀ l, l ≠ place → e.entry l = d.entry l ∨ Disk.Made (Disk.parentOf output) d e l

theorem written_of_write {content : Content} (hm : d.makeParents output = (m, .ok ()))
    (hw : m.write output content = .ok e) : Disk.Widens d e ∧ Written output content d e := by
  have hprepared := Disk.prepared_makeParents d output
  rw [hm] at hprepared
  obtain ⟨place, ht, rfl⟩ := Disk.write_eq_ok_iff.1 hw
  obtain ⟨hl, hfile, -⟩ := Disk.target_eq_ok_iff.1 ht
  have hput := fun other => Disk.entry_put m (Disk.ne_nil_of_entry hfile) other (.file content)
  have hwidens := Disk.widens_put (.file content) hfile
  refine ⟨hprepared.widens.trans hwidens, place, hwidens.locate hl, by rw [hput, if_pos rfl], ?_, hprepared.cwd, ?_⟩
  · intro hd
    exact hfile (hprepared.widens.directories _ hd)
  · intro l hne
    rw [Disk.Made, hput, if_neg hne]
    rcases hprepared.entries l with h | ⟨hnone, hdir, names, hn, hr⟩
    · exact .inl h
    · exact .inr ⟨hnone, hdir, names, hn, hwidens.reach hr⟩

/-- The records are read as they were, if the book was not written over one of them. -/
theorem entered_again (h : entered c.rename d.read .empty (c.recordPaths chain) = .ok b)
    (hm : d.makeParents output = (m, .ok ())) (hw : m.write output (.text b.text) = .ok e)
    (hapart : ∀ p ∈ c.recordPaths chain, e.locate p ≠ e.locate output) :
    entered c.rename e.read .empty (c.recordPaths chain) = .ok b := by
  obtain ⟨hwidens, place, hl, -, -, -, hframe⟩ := written_of_write hm hw
  refine (entered_congr (fun p hp => ?_) _).trans h
  obtain ⟨t, ht⟩ := read_of_entered h p hp
  refine (hwidens.read ht fun l n hloc hn => ?_).trans ht.symm
  have hne : l ≠ place := by
    rintro rfl
    exact hapart p hp ((hwidens.locate hloc).trans hl.symm)
  rcases hframe l hne with heq | ⟨hnone, -⟩
  · exact heq.trans hn
  · rw [hn] at hnone
    cases hnone

/-- Every run is the one whose write is carried through, or its write breaks off and leaves the first bytes of the book.
    If the write is carried through and the run succeeds, it has put the book where the output now leads, and otherwise
    only made directories on the way to it; unless a record is read from that same place, a second run gives the same
    book and changes nothing. If such a run fails, it has at most made directories. -/
theorem publish_again (c : AddressConfig) (chain : Nat) (output : Path) (d : Disk) :
    let e := ((publish c chain output).run d).disk
    (∀ o, (publish c chain output).Runs d o → o = (publish c chain output).run d ∨
        ∃ b n problem, ((build c chain).run d).result = .ok b ∧ n < bytes b.text ∧ o.result = .error problem ∧
          Written output (.front b.text n) d o.disk) ∧
      (∀ b, ((publish c chain output).run d).result = .ok b →
        Written output (.text b.text) d e ∧
          ((∀ p ∈ c.recordPaths chain, e.locate p ≠ e.locate output) →
            ((publish c chain output).run e).result = .ok b ∧ ((publish c chain output).run e).disk = e)) ∧
      ∀ problem, ((publish c chain output).run d).result = .error problem →
        Disk.Prepared (Disk.parentOf output) d e := by
  refine ⟨fun o h => ?_, ?_⟩
  · rcases publish_runs h with heq | ⟨b, m, n, problem, hentered, hm, hw, hn, hresult⟩
    · exact .inl heq
    · obtain ⟨hbuild, -⟩ := run_build c chain d
      exact .inr ⟨b, n, problem, hbuild.trans hentered, hn, hresult, (written_of_write hm hw).2⟩
  · rcases publish_cases c chain output d with ⟨b, m, e, hentered, hm, hw⟩ | ⟨⟨problem, hresult⟩, hprepared⟩
    · obtain ⟨hresult, hdisk⟩ := publish_written hentered hm hw
      rw [hresult, hdisk]
      refine ⟨?_, by simp⟩
      intro b' hb
      cases hb
      obtain ⟨-, place, hl, hframe⟩ := written_of_write hm hw
      refine ⟨⟨place, hl, hframe⟩, fun hapart => ?_⟩
      exact publish_written (entered_again hentered hm hw hapart) (Disk.makeParents_eq_self hl) (Disk.write_again hw)
    · rw [hresult]
      exact ⟨by simp, fun _ _ => hprepared⟩

/-- A write that breaks off in front of its first byte loses what the output held. And an output that leads nowhere
    yet can lead to a record once its directory `new` is made: the book then replaces the record, and is no record
    itself. -/
theorem publish_may_spoil_a_file :
    let book := "book.json".toList
    let old : Node := .file (.text "old".toList)
    let places := ["broadcast".toList, "S".toList, "1".toList, "run-latest.json".toList]
    let record : Node := .file (.text "\x7b\"transactions\":[]\x7d".toList)
    let d : Disk := ⟨[], [(places.take 1, .directory), (places.take 2, .directory), (places.take 3, .directory),
      (places, record)]⟩
    let c : AddressConfig := { steps := [⟨"S".toList, ["run".toList]⟩] }
    let output := "new/../broadcast/S/1/run-latest.json".toList
    (∃ o problem, (publish { steps := [] } 1 book).Runs ⟨[], [([book], old)]⟩ o ∧ o.result = .error problem ∧
        o.disk.entry [book] = some (.file (.text []))) ∧
      (∀ p ∈ c.recordPaths 1, d.locate p ≠ d.locate output) ∧
      ((publish c 1 output).run d).result = .ok .empty ∧
      ∃ problem, ((publish c 1 output).run ((publish c 1 output).run d).disk).result = .error problem := by
  intro book old places record d c output
  have hread : entered c.rename d.read .empty (c.recordPaths 1) = .ok .empty := by rfl
  have hmade : d.makeParents output = (d.put ["new".toList] .directory, .ok ()) := by rfl
  have hwrite : (d.put ["new".toList] .directory).write output (.text Book.empty.text) =
      .ok ((d.put ["new".toList] .directory).put places (.file (.text "\x7b\x7d".toList))) := by rfl
  have hunread : entered c.rename ((d.put ["new".toList] .directory).put places (.file (.text "\x7b\x7d".toList))).read
      .empty (c.recordPaths 1) = .error (.record "broadcast/S/1/run-latest.json".toList
        (.mismatch (.missingField "transactions".toList))) := by rfl
  obtain ⟨hresult, hdisk⟩ := publish_written hread hmade hwrite
  refine ⟨?_, ?_, hresult, ?_⟩
  · have hempty : entered { steps := [] : AddressConfig }.rename (Disk.read ⟨[], [([book], old)]⟩) .empty [] =
        .ok .empty := by rfl
    have hbroken : (⟨[], [([book], old)]⟩ : Disk).breakOff book Book.empty.text 0 =
        .ok ⟨[], [([book], .file (.text []))]⟩ := by rfl
    obtain ⟨o, hruns, hleft, hfailed⟩ := publish_breaks_off .notFound hempty rfl hbroken (by decide)
    exact ⟨o, _, hruns, hfailed, by rw [hleft]; rfl⟩
  · intro p hp
    obtain rfl : p = "broadcast/S/1/run-latest.json".toList := List.mem_singleton.1 hp
    have hhere : d.locate "broadcast/S/1/run-latest.json".toList = .ok places := by rfl
    have hnowhere : d.locate output = .error .notFound := by rfl
    rw [hhere, hnowhere]
    simp
  · rw [hdisk]
    exact ⟨_, (publish_unbuilt output hunread).1⟩

end Replay.Deploy
