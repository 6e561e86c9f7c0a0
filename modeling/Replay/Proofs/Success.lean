/-
  Replay.Proofs.Success — when a chain of steps succeeds.

  A step gives a value or a fault. A chain of two steps succeeds exactly if both do, and
  the first fault is the fault of the chain.
-/

namespace Replay

variable {ε α β : Type}

theorem ok_bind (a : α) (g : α → Except ε β) : ((.ok a : Except ε α) >>= g) = g a := rfl

theorem error_bind (fault : ε) (g : α → Except ε β) : ((.error fault : Except ε α) >>= g) = .error fault := rfl

@[simp] theorem bind_eq_ok_iff {x : Except ε α} {g : α → Except ε β} {b : β} :
    (x >>= g) = .ok b ↔ ∃ a, x = .ok a ∧ g a = .ok b := by
  cases x <;> simp [bind, Except.bind]

@[simp] theorem map_eq_ok_iff {x : Except ε α} {g : α → β} {b : β} :
    g <$> x = .ok b ↔ ∃ a, x = .ok a ∧ g a = b := by
  cases x <;> simp [Functor.map, Except.map]

@[simp] theorem pure_eq_ok_iff {a b : α} : (pure a : Except ε α) = .ok b ↔ a = b := by
  simp [pure, Except.pure]

end Replay
