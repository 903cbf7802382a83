import Xv6.Ipc.PipeInvariant

namespace Xv6.Ipc.Sleep

open Xv6.Data Xv6.Transition

/-! # Who may sleep on a pipe -/

variable {count : Nat} {state : State count} {process : Fin count}

/-- While `pi->lock` is free, whoever sleeps on `&pi->nread` has an empty pipe with an open write
end, and whoever sleeps on `&pi->nwrite` a full one with an open read end. -/
theorem sleeper_has_nothing_to_do {history : List (Event count)} {channel : Channel}
    (run : Run (machine count) Considerate history state) (free : state.lock = none)
    (asleep : (state.proc process).sleeping = some channel) : blocks state.pipe channel := by
  have invariant : Invariant True False state :=
    run.invariant (fun _ initial => initial_invariant initial)
      fun _ _ _ invariant considerate stepped =>
        step_invariant invariant (fun _ => considerate) nofun stepped
  have waits : (state.proc process).channel = some channel := by
    have awake := invariant.awake process
    unfold Proc.channel
    generalize (state.proc process).pc = pc at awake
    cases pc with
    | asleep channel back => exact asleep
    | _ => exact absurd (awake rfl) (by simp [asleep])
  obtain blocked | ⟨waker, wakes⟩ := invariant.waiting trivial process channel waits
  · exact blocked
  · have holder := (invariant.lock waker).mpr wakes.pipeLock
    rw [free] at holder
    contradiction

/-- `piperead` of one byte from an empty pipe, until it sleeps. -/
def sleepingReader : List (Event 2) :=
  .call 0 (.piperead (fun _ => true) 1) :: List.replicate 5 (.step 0)

/-- Process 1 is killed, and its `pipewrite` returns without a byte. -/
theorem sleeper_has_nothing_to_do_killed_writer : ∃ history state,
    Run (machine 2) Considerate history state ∧ state.lock = none ∧
      (state.proc 0).sleeping = some .nread ∧ (state.proc 1).killed = true ∧
      blocks state.pipe .nread := by
  have ran : ((machine 2).guarded Considerate (boot 2) (sleepingReader ++
      .kill 1 :: .call 1 (.pipewrite (fun _ => some 65) 2) :: List.replicate 3 (.step 1))).map
      (fun state => (state.lock, (state.proc 0).sleeping, (state.proc 1).killed)) =
      some (none, some .nread, true) := by
    decide +kernel
  obtain ⟨state, guarded, shown⟩ := Option.map_eq_some_iff.mp ran
  simp only [Prod.mk.injEq] at shown
  obtain ⟨free, asleep, killed⟩ := shown
  have run := (Run.start initial_boot).guarded guarded
  exact ⟨_, state, run, free, asleep, killed, sleeper_has_nothing_to_do run free asleep⟩

/-- Process 1 stores one of two bytes, is killed, and returns -1 without `wakeup`: the reader
goes on sleeping next to a byte. -/
theorem killed_writer_leaves_reader_asleep : ∃ state, Reachable (machine 2) state ∧
    state.lock = none ∧ (state.proc 0).sleeping = some .nread ∧
      state.pipe.nread ≠ state.pipe.nwrite := by
  have ran : ((machine 2).execute (boot 2) (sleepingReader ++
      [.call 1 (.pipewrite (fun _ => some 65) 2), .step 1, .step 1, .kill 1, .step 1, .step 1])).map
      (fun state => (state.lock, (state.proc 0).sleeping, state.pipe.nread, state.pipe.nwrite)) =
      some (none, some .nread, 0, 1) := by
    decide +kernel
  obtain ⟨state, executed, shown⟩ := Option.map_eq_some_iff.mp ran
  simp only [Prod.mk.injEq] at shown
  obtain ⟨free, asleep, nread, nwrite⟩ := shown
  refine ⟨state, .of_execute initial_boot executed, free, asleep, ?_⟩
  rw [nread, nwrite]
  decide

end Xv6.Ipc.Sleep
