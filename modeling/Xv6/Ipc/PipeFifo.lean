import Xv6.Ipc.PipeInvariant

namespace Xv6.Ipc.Sleep

open Xv6.Data Xv6.Transition

/-! # A pipe delivers what was stored, in order -/

variable {count : Nat} {state : State count}

/-- In every run with mapped user buffers at most `PIPESIZE` bytes are waiting, the bytes
stored are those delivered followed by those waiting, and `piperead` returns zero only
at the end of the file.  What a `pipewrite` has stored are the first bytes of its buffer, as
many as it says. -/
theorem pipe_fifo {history : List (Event count)} (ran : Run (machine count) Mapped history state) :
    gap state.pipe.nread state.pipe.nwrite ≤ PIPESIZE ∧
      state.log.map Prod.snd = state.pipe.delivered ++
        contents PIPESIZE state.pipe.data state.pipe.nread state.pipe.nwrite ∧
      (∀ process writable n, (state.proc process).pc = .inside (.release (.piperead writable n) 0) →
        0 < n → state.pipe.nread = state.pipe.nwrite ∧ state.pipe.writeopen = false) ∧
      (∀ process source n i fresh, (state.proc process).pc = .inside (.write source n i fresh) →
        (state.bytes process).map some = (List.range i).map source) ∧
      ∀ process source n value,
        (state.proc process).pc = .inside (.release (.pipewrite source n) value) →
        (state.bytes process).map some = (List.range (state.bytes process).length).map source ∧
          (value = -1 ∨ value = (state.bytes process).length) := by
  have invariant : Invariant False True state :=
    ran.invariant (fun _ initial => initial_invariant initial)
      fun _ _ _ invariant mapped stepped => step_invariant invariant nofun (fun _ => mapped) stepped
  have fifo := invariant.fifo trivial
  refine ⟨fifo.fits, fifo.order, ?_, ?_, ?_⟩
  · intro process writable n here wanted
    have fits := invariant.fits process
    rw [here] at fits
    exact fits trivial rfl wanted
  · intro process source n i fresh here
    have fits := invariant.fits process
    rw [here] at fits
    exact fits.1
  · intro process source n value here
    have fits := invariant.fits process
    rw [here] at fits
    exact fits

/-- Three bytes are stored, two are read, and both ends are used again. -/
def shortTalk : List (Event 2) :=
  let bytes : Nat → Option UInt8 := fun index => some (UInt8.ofNat (index + 65))
  .call 0 (.pipewrite bytes 3) :: List.replicate 9 (.step 0) ++
    .call 1 (.piperead (fun _ => true) 2) :: List.replicate 9 (.step 1) ++
    .call 1 (.pipewrite bytes 1) :: List.replicate 7 (.step 1)

theorem pipe_fifo_short_talk : ∃ history state, Run (machine 2) Mapped history state ∧
    state.pipe.delivered = [65, 66] ∧ state.log = [(0, 65), (0, 66), (0, 67), (1, 65)] ∧
    state.log.map Prod.snd = state.pipe.delivered ++
      contents PIPESIZE state.pipe.data state.pipe.nread state.pipe.nwrite := by
  have ran : (((machine 2).guarded Mapped (boot 2) shortTalk).map
      fun state => (state.pipe.delivered, state.log)) =
      some ([65, 66], [(0, 65), (0, 66), (0, 67), (1, 65)]) := by
    decide +kernel
  obtain ⟨state, executed, shown⟩ := Option.map_eq_some_iff.mp ran
  simp only [Prod.mk.injEq] at shown
  have reached := (Run.start initial_boot).guarded executed
  exact ⟨_, state, reached, shown.1, shown.2, (pipe_fifo reached).2.1⟩

end Xv6.Ipc.Sleep
