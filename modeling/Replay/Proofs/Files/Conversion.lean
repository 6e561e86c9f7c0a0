/-
  Replay.Proofs.Files.Conversion — what a conversion leaves on the disk.

  A conversion reads the trace, then the test file, and writes the test file last. Up to
  the write nothing changes. The file that is replaced was just read, so it can be opened,
  and it is assumed that the write is then carried through, as `run` has it. So a conversion
  that fails leaves the disk as it was, and one that succeeds changes one file, made of the
  two texts as they were before, also if both are in one file.

  Proved here: `convert_cases`, `convert_all_or_nothing`.
-/

import Replay.Proofs.Files.Frames
import Replay.Proofs.Files.Scripts
import Replay.Convert

namespace Replay

open Text TestFile Script

variable {d : Disk}

/-! ## The test file -/

section SpliceFile

variable {stem : Text} {strategy : Strategy} {path : Path} {block : Block} {source : Text}

theorem spliceFile_unread {fault : IoFault} (h : d.read path = .error fault) :
    (spliceFile stem strategy path block).run d = ⟨[], d, .error (.io (some (.readTestFile path)) fault)⟩ :=
  run_bind_error (run_readText h _)

theorem spliceFile_uncut (h : d.read path = .ok source) (hcut : splice stem strategy source block = none) :
    ((spliceFile stem strategy path block).run d).result = .error (.noInsertionPoint strategy) ∧
      ((spliceFile stem strategy path block).run d).disk = d := by
  rw [spliceFile, run_bind_ok (run_readText h _), run_notes_bind, hcut]
  exact ⟨rfl, rfl⟩

/-- The file that was read is written, whatever it is to hold. -/
theorem spliceFile_spliced {spliced : Spliced} (h : d.read path = .ok source)
    (hs : splice stem strategy source block = some spliced) :
    ∃ place, d.locate path = .ok place ∧ d.entry place = some (.file (.text source)) ∧
      ((spliceFile stem strategy path block).run d).result = .ok spliced.name ∧
      ((spliceFile stem strategy path block).run d).disk = d.put place (.file (.text spliced.source)) := by
  obtain ⟨place, hl, he, hw⟩ := Disk.write_of_read (.text spliced.source) h
  refine ⟨place, hl, he, ?_⟩
  rw [spliceFile, run_bind_ok (run_readText h _), run_notes_bind, hs]
  simp only [run_notes_bind, run_bind_ok (run_writeText hw _)]
  exact ⟨rfl, rfl⟩

end SpliceFile

/-! ## The conversion -/

section Convert

variable {c : TraceConfig} {folder : Path} {trace source : Text}

theorem convert_unread {fault : IoFault} (h : d.read c.traceFile = .error fault) :
    ((convert c folder).run d).result = .error (.io (some (.readTrace c.traceFile)) fault) ∧
      ((convert c folder).run d).disk = d := by
  rw [convert, run_notes_bind, run_bind_error (run_readText h _)]
  exact ⟨rfl, rfl⟩

/-- Behind the trace, the conversion is that of the test file. -/
theorem convert_read (folder : Path) (h : d.read c.traceFile = .ok trace) :
    ((convert c folder).run d).result = ((spliceFile c.stem c.strategy (Path.join folder c.testFile)
        (Trace.transform trace)).run d).result.map (fun name => (Path.join folder c.testFile, name)) ∧
      ((convert c folder).run d).disk = ((spliceFile c.stem c.strategy (Path.join folder c.testFile)
        (Trace.transform trace)).run d).disk := by
  rw [convert, run_notes_bind, run_bind_ok (run_readText h _)]
  simp only [run_notes_bind, result_after, disk_after, result_bind_pure, disk_bind_pure, and_self]

theorem convert_stopped {p : Problem} (h : d.read c.traceFile = .ok trace)
    (hs : ((spliceFile c.stem c.strategy (Path.join folder c.testFile) (Trace.transform trace)).run d).result = .error p)
    (hd : ((spliceFile c.stem c.strategy (Path.join folder c.testFile) (Trace.transform trace)).run d).disk = d) :
    ((convert c folder).run d).result = .error p ∧ ((convert c folder).run d).disk = d := by
  obtain ⟨hresult, hdisk⟩ := convert_read folder h
  rw [hresult, hdisk, hs, hd]
  exact ⟨rfl, rfl⟩

/-- Why a conversion fails, in the order in which it comes up. -/
inductive Refused (c : TraceConfig) (folder : Path) (d : Disk) : Problem → Prop
  | trace {fault : IoFault} : d.read c.traceFile = .error fault →
      Refused c folder d (.io (some (.readTrace c.traceFile)) fault)
  | testFile {trace : Text} {fault : IoFault} : d.read c.traceFile = .ok trace →
      d.read (Path.join folder c.testFile) = .error fault →
      Refused c folder d (.io (some (.readTestFile (Path.join folder c.testFile))) fault)
  | noCut {trace source : Text} : d.read c.traceFile = .ok trace →
      d.read (Path.join folder c.testFile) = .ok source → Cut.find c.strategy source = none →
      Refused c folder d (.noInsertionPoint c.strategy)

theorem Refused.no_cut {p : Problem} (h : Refused c folder d p) (ht : d.read c.traceFile = .ok trace)
    (hs : d.read (Path.join folder c.testFile) = .ok source) : Cut.find c.strategy source = none := by
  cases h with
  | trace hf =>
    rw [hf] at ht
    cases ht
  | testFile _ hf =>
    rw [hf] at hs
    cases hs
  | noCut _ hsource hcut =>
    rw [hsource] at hs
    cases hs
    exact hcut

/-- A conversion fails and leaves the disk alone, or it writes the test file. -/
theorem convert_cases (c : TraceConfig) (folder : Path) (d : Disk) :
    (∃ p, Refused c folder d p ∧ ((convert c folder).run d).result = .error p ∧ ((convert c folder).run d).disk = d) ∨
      ∃ trace source spliced place, d.read c.traceFile = .ok trace ∧
        d.read (Path.join folder c.testFile) = .ok source ∧
        splice c.stem c.strategy source (Trace.transform trace) = some spliced ∧
        d.locate (Path.join folder c.testFile) = .ok place ∧ d.entry place = some (.file (.text source)) ∧
        ((convert c folder).run d).result = .ok (Path.join folder c.testFile, spliced.name) ∧
        ((convert c folder).run d).disk = d.put place (.file (.text spliced.source)) := by
  cases htrace : d.read c.traceFile with
  | error fault => exact .inl ⟨_, .trace htrace, convert_unread htrace⟩
  | ok trace =>
    cases hsource : d.read (Path.join folder c.testFile) with
    | error fault =>
      have hrun : (spliceFile c.stem c.strategy (Path.join folder c.testFile) (Trace.transform trace)).run d =
          ⟨[], d, .error (.io (some (.readTestFile _)) fault)⟩ := spliceFile_unread hsource
      exact .inl ⟨_, .testFile htrace hsource,
        convert_stopped htrace (congrArg Outcome.result hrun) (congrArg Outcome.disk hrun)⟩
    | ok source =>
      cases hsplice : splice c.stem c.strategy source (Trace.transform trace) with
      | none =>
        obtain ⟨hs, hd⟩ := spliceFile_uncut hsource hsplice
        exact .inl ⟨_, .noCut htrace hsource (Option.map_eq_none_iff.1 hsplice), convert_stopped htrace hs hd⟩
      | some spliced =>
        obtain ⟨place, hl, he, hs, hd⟩ := spliceFile_spliced hsource hsplice
        obtain ⟨hresult, hdisk⟩ := convert_read folder htrace
        rw [hs] at hresult
        exact .inr ⟨trace, source, spliced, place, rfl, rfl, hsplice, hl, he, hresult, hdisk.trans hd⟩

/-- A conversion succeeds exactly if both files are text and the source has a place for the function. If it fails, the
    disk is as it was; if it succeeds, only the test file has changed, and holds what was asked for. -/
theorem convert_all_or_nothing (c : TraceConfig) (folder : Path) (d : Disk) :
    ((∃ r, ((convert c folder).run d).result = .ok r) ↔ ∃ trace source, d.read c.traceFile = .ok trace ∧
        d.read (Path.join folder c.testFile) = .ok source ∧ ∃ cut, Cut.find c.strategy source = some cut) ∧
      (∀ p, ((convert c folder).run d).result = .error p →
        Refused c folder d p ∧ ((convert c folder).run d).disk = d) ∧
      ∀ path name, ((convert c folder).run d).result = .ok (path, name) →
        path = Path.join folder c.testFile ∧ ∃ trace source spliced place, d.read c.traceFile = .ok trace ∧
          d.read path = .ok source ∧ splice c.stem c.strategy source (Trace.transform trace) = some spliced ∧
          spliced.name = name ∧ d.locate path = .ok place ∧ ((convert c folder).run d).disk.cwd = d.cwd ∧
          ∀ l, ((convert c folder).run d).disk.entry l =
            if l = place then some (.file (.text spliced.source)) else d.entry l := by
  rcases convert_cases c folder d with ⟨p, hrefused, hresult, hdisk⟩ |
    ⟨trace, source, spliced, place, htrace, hsource, hsplice, hl, he, hresult, hdisk⟩
  · simp only [hresult, hdisk, reduceCtorEq, exists_false, false_implies, implies_true, and_true, false_iff,
      Except.error.injEq]
    refine ⟨?_, fun q hq => hq ▸ hrefused⟩
    intro h
    obtain ⟨trace, source, ht, hs, cut, hcut⟩ := h
    rw [hrefused.no_cut ht hs] at hcut
    cases hcut
  · have hfile : d.entry place ≠ some .directory := by rw [he]; simp
    obtain ⟨cut, hcut, -⟩ := Option.map_eq_some_iff.1 hsplice
    rw [hresult, hdisk]
    refine ⟨⟨fun _ => ⟨trace, source, htrace, hsource, cut, hcut⟩, fun _ => ⟨_, rfl⟩⟩, by simp, ?_⟩
    intro path name h
    cases h
    exact ⟨rfl, trace, source, spliced, place, htrace, hsource, hsplice, rfl, hl, rfl, fun l =>
      Disk.entry_put d (Disk.ne_nil_of_entry hfile) l _⟩

end Convert

end Replay
