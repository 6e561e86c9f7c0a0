/-
  Replay.Proofs.Files.Scripts — a run, step by step.

  Every step of a script has one outcome on a disk: reports change nothing, a read asks the
  disk, a write and the making of parents go on with another one. A run of two parts is a
  run of the first and, if that comes to something, a run of the second on the disk that
  the first left. What a run leaves and what it comes to do not depend on what was reported
  before it.

  `run` is one of the runs of a script, and the only one if the script just reads.

  Proved here: `run_bind_ok`, `run_bind_error`, the outcome of each step, `runs_run`,
  `exists_of_runs_bind`, `ReadsOnly.eq_run`.
-/

import Replay.Script

namespace Replay.Script

variable {α β : Type}

/-! ## Two parts -/

@[simp] theorem result_after (events : List Event) (o : Outcome α) : (o.after events).result = o.result := rfl

@[simp] theorem disk_after (events : List Event) (o : Outcome α) : (o.after events).disk = o.disk := rfl

theorem run_bind_ok {s : Script α} {f : α → Script β} {d e : Disk} {events : List Event} {a : α}
    (h : s.run d = ⟨events, e, .ok a⟩) : (s >>= f).run d = ((f a).run e).after events := by
  rw [run_bind, h]

theorem run_bind_error {s : Script α} {f : α → Script β} {d e : Disk} {events : List Event} {p : Problem}
    (h : s.run d = ⟨events, e, .error p⟩) : (s >>= f).run d = ⟨events, e, .error p⟩ := by
  rw [run_bind, h]

/-- The last part only makes a value of what the first came to. -/
theorem result_bind_pure (s : Script α) (g : α → β) (d : Disk) :
    ((s >>= fun a => pure (g a)).run d).result = (s.run d).result.map g := by
  rw [run_bind]
  cases (s.run d).result <;> rfl

theorem disk_bind_pure (s : Script α) (g : α → β) (d : Disk) :
    ((s >>= fun a => pure (g a)).run d).disk = (s.run d).disk := by
  rw [run_bind]
  cases (s.run d).result <;> rfl

/-! ## Steps -/

theorem run_notes (events : List Event) (d : Disk) : (notes events).run d = ⟨events, d, .ok ()⟩ := by
  induction events with
  | nil => rfl
  | cons e events ih =>
    rw [notes, run, ih]
    rfl

theorem run_notes_bind (events : List Event) (f : Unit → Script β) (d : Disk) :
    (notes events >>= f).run d = ((f ()).run d).after events :=
  run_bind_ok (run_notes events d)

theorem run_ofExcept {ε : Type} (wrap : ε → Problem) (x : Except ε α) (d : Disk) :
    (ofExcept wrap x).run d = ⟨[], d, x.mapError wrap⟩ := by
  cases x <;> rfl

theorem run_readText {d : Disk} {p : Path} {x : Except IoFault Text} (h : d.read p = x) (purpose : Option Purpose) :
    (readText purpose p).run d = ⟨[], d, x.mapError (.io purpose)⟩ := by
  rw [readText, run, h, run_ofExcept]

theorem run_writeText {d e : Disk} {p : Path} {t : Text} (h : d.write p (.text t) = .ok e) (purpose : Option Purpose) :
    (writeText purpose p t).run d = ⟨[], e, .ok ()⟩ := by
  rw [writeText, run, h]
  rfl

theorem run_writeText_error {d : Disk} {p : Path} {t : Text} {fault : IoFault} (h : d.write p (.text t) = .error fault)
    (purpose : Option Purpose) : (writeText purpose p t).run d = ⟨[], d, .error (.io purpose fault)⟩ := by
  rw [writeText, run, h]
  rfl

theorem run_ensureParents (p : Path) (d : Disk) :
    (ensureParents p).run d = ⟨[], (d.makeParents p).1, (d.makeParents p).2.mapError (.io none)⟩ := by
  rw [ensureParents, run, run_ofExcept]

/-! ## Runs in which writes may break off -/

theorem runs_run (s : Script α) (d : Disk) : s.Runs d (s.run d) := by
  induction s generalizing d with
  | done a => exact .done a d
  | fail p => exact .fail p d
  | note e next ih => exact .note (ih d)
  | read p next ih => exact .read (ih _ d)
  | write p t next ih =>
    rw [run]
    split
    · next h => exact .written h (ih _ _)
    · next h => exact .refused h (ih _ d)
  | makeParents p next ih => exact .makeParents (ih _ _)

/-- A run of two parts ends with the first one, or goes on where that one left off. -/
theorem exists_of_runs_bind {s : Script α} {f : α → Script β} {d : Disk} {o : Outcome β} (h : (s >>= f).Runs d o) :
    ∃ first, s.Runs d first ∧
      ((∃ p, first.result = .error p ∧ o = ⟨first.events, first.disk, .error p⟩) ∨
        ∃ a rest, first.result = .ok a ∧ (f a).Runs first.disk rest ∧ o = rest.after first.events) := by
  change (s.bind f).Runs d o at h
  induction s generalizing d o with
  | done a => exact ⟨_, .done a d, .inr ⟨a, o, rfl, h, rfl⟩⟩
  | fail p =>
    cases h
    exact ⟨_, .fail p d, .inl ⟨p, rfl, rfl⟩⟩
  | note e next ih =>
    cases h with
    | note h =>
      obtain ⟨first, hfirst, ⟨p, hp, rfl⟩ | ⟨a, rest, ha, hrest, rfl⟩⟩ := ih h
      · exact ⟨_, .note hfirst, .inl ⟨p, hp, rfl⟩⟩
      · exact ⟨_, .note hfirst, .inr ⟨a, rest, ha, hrest, rfl⟩⟩
  | read p next ih =>
    cases h with
    | read h =>
      obtain ⟨first, hfirst, hcases⟩ := ih _ h
      exact ⟨first, .read hfirst, hcases⟩
  | write p t next ih =>
    cases h with
    | written hw h =>
      obtain ⟨first, hfirst, hcases⟩ := ih _ h
      exact ⟨first, .written hw hfirst, hcases⟩
    | refused hw h =>
      obtain ⟨first, hfirst, hcases⟩ := ih _ h
      exact ⟨first, .refused hw hfirst, hcases⟩
    | brokenOff hn hw h =>
      obtain ⟨first, hfirst, hcases⟩ := ih _ h
      exact ⟨first, .brokenOff hn hw hfirst, hcases⟩
  | makeParents p next ih =>
    cases h with
    | makeParents h =>
      obtain ⟨first, hfirst, hcases⟩ := ih _ h
      exact ⟨first, .makeParents hfirst, hcases⟩

theorem runs_bind_error {s : Script α} {f : α → Script β} {d : Disk} {first : Outcome α} {p : Problem}
    (h : s.Runs d first) (hp : first.result = .error p) : (s >>= f).Runs d ⟨first.events, first.disk, .error p⟩ := by
  show (s.bind f).Runs d _
  induction h with
  | done => cases hp
  | fail _ d =>
    cases hp
    exact .fail p d
  | note _ ih => exact .note (ih hp)
  | read _ ih => exact .read (ih hp)
  | written hw _ ih => exact .written hw (ih hp)
  | refused hw _ ih => exact .refused hw (ih hp)
  | brokenOff hn hw _ ih => exact .brokenOff hn hw (ih hp)
  | makeParents _ ih => exact .makeParents (ih hp)

theorem runs_bind_ok {s : Script α} {f : α → Script β} {d : Disk} {first : Outcome α} {a : α} {rest : Outcome β}
    (h : s.Runs d first) (ha : first.result = .ok a) (hrest : (f a).Runs first.disk rest) :
    (s >>= f).Runs d (rest.after first.events) := by
  show (s.bind f).Runs d _
  induction h with
  | done =>
    cases ha
    exact hrest
  | fail => cases ha
  | note _ ih => exact .note (ih ha hrest)
  | read _ ih => exact .read (ih ha hrest)
  | written hw _ ih => exact .written hw (ih ha hrest)
  | refused hw _ ih => exact .refused hw (ih ha hrest)
  | brokenOff hn hw _ ih => exact .brokenOff hn hw (ih ha hrest)
  | makeParents _ ih => exact .makeParents (ih ha hrest)

def ReadsOnly : Script α → Prop
  | .done _ | .fail _ => True
  | .note _ next => next.ReadsOnly
  | .read _ next => ∀ r, (next r).ReadsOnly
  | .write .. | .makeParents .. => False

theorem ReadsOnly.bind {s : Script α} {f : α → Script β} (hs : s.ReadsOnly) (hf : ∀ a, (f a).ReadsOnly) :
    (s >>= f).ReadsOnly := by
  show (s.bind f).ReadsOnly
  induction s with
  | done a => exact hf a
  | fail p => exact hs
  | note e next ih => exact ih hs
  | read p next ih => exact fun r => ih r (hs r)
  | write p t next _ => exact hs
  | makeParents p next _ => exact hs

/-- Without a write nothing can break off. -/
theorem ReadsOnly.eq_run {s : Script α} {d : Disk} {o : Outcome α} (hs : s.ReadsOnly) (h : s.Runs d o) :
    o = s.run d := by
  induction h with
  | done a d => rfl
  | fail p d => rfl
  | note _ ih => rw [ih hs, run]
  | read _ ih => exact ih (hs _)
  | written => exact hs.elim
  | refused => exact hs.elim
  | brokenOff => exact hs.elim
  | makeParents => exact hs.elim

theorem readsOnly_notes (events : List Event) : (notes events).ReadsOnly := by
  induction events with
  | nil => trivial
  | cons e events ih => exact ih

theorem readsOnly_ofExcept {ε : Type} (wrap : ε → Problem) (x : Except ε α) : (ofExcept wrap x).ReadsOnly := by
  cases x <;> trivial

end Replay.Script
