/-
  Replay.Script — what a run does, as a value.

  A script says which files it reads and writes, what it reports, and how it goes on with
  what it gets. It can be carried out on the real files or on a `Disk`; `run` is the
  latter and says everything that can be said of a run: what was reported, what the disk
  holds afterwards, and what came out. It carries every write through whose file could be
  opened. `Runs` has the other runs as well, in which a write may break off.

  Proved here: `run_bind` (a script is run part by part).
-/

import Replay.Problem

namespace Replay

inductive Script (α : Type) where
  | done (a : α)
  | fail (p : Problem)
  | note (e : Event) (next : Script α)
  | read (p : Path) (next : Except IoFault Text → Script α)
  | write (p : Path) (t : Text) (next : Except IoFault Unit → Script α)
  /-- Make the directories in which the path's file is to stand. -/
  | makeParents (p : Path) (next : Except IoFault Unit → Script α)

namespace Script

def bind {α β : Type} : Script α → (α → Script β) → Script β
  | done a, f => f a
  | fail p, _ => fail p
  | note e next, f => note e (next.bind f)
  | read p next, f => read p fun r => (next r).bind f
  | write p t next, f => write p t fun r => (next r).bind f
  | makeParents p next, f => makeParents p fun r => (next r).bind f

instance : Monad Script where
  pure := done
  bind := bind

/-- The problem of a script as its outcome. -/
def attempt {α : Type} : Script α → Script (Except Problem α)
  | done a => done (.ok a)
  | fail p => done (.error p)
  | note e next => note e next.attempt
  | read p next => read p fun r => (next r).attempt
  | write p t next => write p t fun r => (next r).attempt
  | makeParents p next => makeParents p fun r => (next r).attempt

/-! ## Steps -/

def notes : List Event → Script Unit
  | [] => done ()
  | e :: es => note e (notes es)

def ofExcept {ε α : Type} (wrap : ε → Problem) : Except ε α → Script α
  | .ok a => done a
  | .error e => fail (wrap e)

def readText (purpose : Option Purpose) (p : Path) : Script Text :=
  read p (ofExcept (.io purpose))

def writeText (purpose : Option Purpose) (p : Path) (t : Text) : Script Unit :=
  write p t (ofExcept (.io purpose))

def ensureParents (p : Path) : Script Unit := makeParents p (ofExcept (.io none))

/-! ## Running on a disk -/

structure Outcome (α : Type) where
  events : List Event
  disk : Disk
  result : Except Problem α

def Outcome.after {α : Type} (events : List Event) (o : Outcome α) : Outcome α :=
  { o with events := events ++ o.events }

/-- The run in which no write breaks off. -/
def run {α : Type} : Script α → Disk → Outcome α
  | done a, d => ⟨[], d, .ok a⟩
  | fail p, d => ⟨[], d, .error p⟩
  | note e next, d => (next.run d).after [e]
  | read p next, d => (next (d.read p)).run d
  | write p t next, d =>
    match d.write p (.text t) with
    | .ok d => (next (.ok ())).run d
    | .error f => (next (.error f)).run d
  | makeParents p next, d => (next (d.makeParents p).2).run (d.makeParents p).1

/-- A run in which a write may break off behind some of its bytes; the script is then told of some fault. -/
inductive Runs {α : Type} : Script α → Disk → Outcome α → Prop
  | done (a : α) (d : Disk) : Runs (done a) d ⟨[], d, .ok a⟩
  | fail (p : Problem) (d : Disk) : Runs (fail p) d ⟨[], d, .error p⟩
  | note {e : Event} {next : Script α} {d : Disk} {o : Outcome α} : Runs next d o →
      Runs (note e next) d (o.after [e])
  | read {p : Path} {next : Except IoFault Text → Script α} {d : Disk} {o : Outcome α} :
      Runs (next (d.read p)) d o → Runs (read p next) d o
  | written {p : Path} {t : Text} {next : Except IoFault Unit → Script α} {d e : Disk} {o : Outcome α} :
      d.write p (.text t) = .ok e → Runs (next (.ok ())) e o → Runs (write p t next) d o
  | refused {p : Path} {t : Text} {next : Except IoFault Unit → Script α} {d : Disk} {fault : IoFault}
      {o : Outcome α} :
      d.write p (.text t) = .error fault → Runs (next (.error fault)) d o → Runs (write p t next) d o
  | brokenOff {p : Path} {t : Text} {next : Except IoFault Unit → Script α} {d e : Disk} {n : Nat}
      {fault : IoFault} {o : Outcome α} : n < Text.bytes t → d.breakOff p t n = .ok e →
      Runs (next (.error fault)) e o → Runs (write p t next) d o
  | makeParents {p : Path} {next : Except IoFault Unit → Script α} {d : Disk} {o : Outcome α} :
      Runs (next (d.makeParents p).2) (d.makeParents p).1 o → Runs (makeParents p next) d o

theorem run_bind {α β : Type} (s : Script α) (f : α → Script β) (d : Disk) :
    (s >>= f).run d =
      match (s.run d).result with
      | .ok a => ((f a).run (s.run d).disk).after (s.run d).events
      | .error p => ⟨(s.run d).events, (s.run d).disk, .error p⟩ := by
  show (s.bind f).run d = _
  induction s generalizing d with
  | done a => simp [bind, run, Outcome.after]
  | fail p => simp [bind, run]
  | note e next ih =>
    simp only [bind, run, ih, Outcome.after]
    split <;> simp_all
  | read p next ih => simp only [bind, run, ih]
  | write p t next ih =>
    simp only [bind, run]
    split <;> simp only [ih]
  | makeParents p next ih => simp only [bind, run, ih]

end Script
end Replay
