import Mathlib.Init

namespace Xv6

/-! # wakeup

The loop of `wakeup` of `proc.c`, which takes the lock of every process but its caller.
-/

variable {count : Nat}

/-- What an iteration of the loop comes to. -/
inductive Iteration (count : Nat) where
  /-- No process is left. -/
  | ended
  /-- The lock of the process is taken. -/
  | spins
  /-- The process is the caller, or does not sleep on the channel. -/
  | passes
  /-- The process becomes `RUNNABLE`. -/
  | wakes (sleeper : Fin count)

/-- Iteration `index`; `sleeps` says who is `SLEEPING` on the channel. -/
def wakeup (caller : Fin count) (locked sleeps : Fin count → Bool) (index : Nat) : Iteration count :=
  if inside : index < count then
    if ⟨index, inside⟩ = caller then
      .passes
    else if locked ⟨index, inside⟩ then
      .spins
    else if sleeps ⟨index, inside⟩ then
      .wakes ⟨index, inside⟩
    else
      .passes
  else
    .ended

variable {caller : Fin count} {locked sleeps : Fin count → Bool} {index : Nat}

theorem wakeup_ended (ended : wakeup caller locked sleeps index = .ended) : count ≤ index := by
  unfold wakeup at ended
  split at ended
  · (repeat' split at ended) <;> contradiction
  · exact Nat.le_of_not_lt ‹_›

theorem wakeup_wakes {sleeper : Fin count} (wakes : wakeup caller locked sleeps index = .wakes sleeper) :
    sleeper.val = index ∧ sleeper ≠ caller ∧ locked sleeper = false ∧ sleeps sleeper = true := by
  unfold wakeup at wakes
  repeat' split at wakes
  all_goals cases wakes
  exact ⟨rfl, ‹_›, eq_false_of_ne_true ‹_›, ‹_›⟩

theorem wakeup_passes (passes : wakeup caller locked sleeps index = .passes) {other : Fin count}
    (here : other.val = index) (different : other ≠ caller) :
    locked other = false ∧ sleeps other = false := by
  subst here
  unfold wakeup at passes
  repeat' split at passes
  all_goals first | contradiction | skip
  exact ⟨eq_false_of_ne_true ‹_›, eq_false_of_ne_true ‹_›⟩

end Xv6
