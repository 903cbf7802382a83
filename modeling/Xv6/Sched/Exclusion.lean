import Xv6.Sched.ExecutionStep

namespace Xv6.Sched

open Xv6.Transition

/-! # Exclusive execution

What the invariant says about a process whose lock is free.
-/

variable {cpus procs : Nat} {state : State cpus procs} {cpu other : Fin cpus}
  {effect : Effect cpus procs} {process self : Fin procs}

/-- Only a running process uses its stack while its lock is free. -/
theorem Exec.running_of_thread (exec : Exec state) (locks : Locks state) {thread : Thread procs}
    (free : (state.proc process).lock = none) (on : (state.cpu cpu).code = .thread process thread) :
    (state.proc process).state = .running := by
  have claims : (state.cpu cpu).code.claim = some process := by rw [on]; rfl
  rw [exec.claimed cpu process claims]
  by_contra leaving
  have held : (state.proc process).lock = some cpu :=
    (locks.proc process cpu).mpr (Code.leaving_locked claims leaving)
  rw [free] at held
  contradiction

/-- A CPU whose current process has a free lock executes it. -/
theorem Exec.thread_of_current (exec : Exec state) (locks : Locks state)
    (free : (state.proc process).lock = none) (current : (state.cpu cpu).proc = some process) :
    ∃ thread, (state.cpu cpu).code = .thread process thread := by
  have unheld : (state.cpu cpu).code.plock ≠ some process := by
    intro held
    have lock : (state.proc process).lock = some cpu := (locks.proc process cpu).mpr held
    rw [free] at lock
    contradiction
  rw [exec.current] at current
  generalize (state.cpu cpu).code = code at current unheld
  cases code with
  | scheduler place => cases place <;> cases current <;> exact absurd rfl unheld
  | handler => contradiction
  | thread self thread => cases current; exact ⟨thread, rfl⟩

theorem Exec.running_iff (exec : Exec state) (locks : Locks state)
    (free : (state.proc process).lock = none) :
    (state.proc process).state = .running ↔ ∃! cpu, (state.cpu cpu).proc = some process := by
  constructor
  · intro running
    obtain ⟨cpu, claims⟩ := exec.running process running
    have unheld : (state.cpu cpu).code.plock ≠ some process := by
      intro held
      have lock : (state.proc process).lock = some cpu := (locks.proc process cpu).mpr held
      rw [free] at lock
      contradiction
    obtain ⟨thread, on⟩ | mark | swtch := Code.claim_cases claims
    · refine ⟨cpu, ?_, fun other current => ?_⟩
      · simp only [exec.current, on]
        rfl
      · obtain ⟨_, also⟩ := exec.thread_of_current locks free current
        exact exec.unique other cpu process (by rw [also]; rfl) claims
    · exact absurd (by rw [mark]; rfl) unheld
    · exact absurd (by rw [swtch]; rfl) unheld
  · rintro ⟨cpu, current, _⟩
    obtain ⟨thread, on⟩ := exec.thread_of_current locks free current
    exact exec.running_of_thread locks free on

/-- `freeproc` is applied to no process that uses its stack. -/
theorem Exec.free_off_stack (exec : Exec state) (locks : Locks state)
    (transition : Acts state cpu effect)
    (freed : effect.write = some (process, .free) ∨ ∃ waiter, effect.write = some (process,
      .reap waiter)) (thread : Thread procs) :
    (state.cpu other).code ≠ .thread process thread := by
  intro on
  have claims : (state.cpu other).code.claim = some process := by rw [on]; rfl
  have claimed := exec.claimed other process claims
  obtain written | ⟨waiter, written⟩ := freed
  · obtain ⟨code, next, here, _, writes⟩ := transition.wrote written
    cases writes
    exact (Code.state_alive _).1 (claimed.symm.trans (exec.child_used here rfl))
  · obtain ⟨code, next, here, _, writes⟩ := transition.wrote written
    cases writes with
    | reap zombie =>
      rw [zombie] at claimed
      have held := Code.leaving_locked claims (claimed ▸ nofun)
      have same := locks.proc.unique held (by rw [here]; rfl : (state.cpu cpu).code.plock = some process)
      rw [same, here] at claimed
      contradiction

/-- One CPU at most runs a process; a process that no CPU runs is stopped at its saved context,
and the memory of one that runs is not freed. -/
theorem exclusive_execution (reachable : Reachable (machine cpus procs) state) :
    (∀ cpu other process thread thread', (state.cpu cpu).code = .thread process thread →
      (state.cpu other).code = .thread process thread' → cpu = other) ∧
    (∀ process, (state.proc process).lock = none →
      ((state.proc process).state = .running ↔ ∃! cpu, (state.cpu cpu).proc = some process) ∧
      ((state.proc process).state = .runnable ∨ (state.proc process).state = .sleeping →
        (state.proc process).stopped = some (state.proc process).context)) ∧
    ∀ event effect process, act state event = some effect →
      (effect.write = some (process, .free) ∨
        ∃ waiter, effect.write = some (process, .reap waiter)) →
      ∀ cpu thread, (state.cpu cpu).code ≠ .thread process thread := by
  obtain ⟨locks, exec⟩ := reachable_exec reachable
  refine ⟨?_, ?_, ?_⟩
  · intro cpu other process thread thread' on also
    exact exec.unique cpu other process (by rw [on]; rfl) (by rw [also]; rfl)
  · intro process free
    refine ⟨exec.running_iff locks free, fun idle => ?_⟩
    refine exec.saved process (idle.elim .inl fun sleeping => .inr (.inl sleeping)) fun cpu thread on => ?_
    rw [exec.running_of_thread locks free on] at idle
    simp at idle
  · intro event effect process acted freed cpu thread
    exact exec.free_off_stack locks (act_transition acted) freed thread

/-- A CPU finds the first process and switches to it. -/
def firstSwitch : List (Event 2 2) := [.run 0 true, .run 0 true, .run 0 true, .run 0 true, .run 0 true]

theorem exclusive_execution_first_switch : ∃ state : State 2 2, Reachable (machine 2 2) state ∧
    (state.proc 0).lock = none ∧ ∃! cpu, (state.cpu cpu).proc = some 0 := by
  have ran : ((machine 2 2).execute (boot 0) firstSwitch).map (fun state => state.proc 0) =
      some ⟨none, .running, none, false, 0, 1, none, .forkret, none, none, 0, 0⟩ := by
    decide +kernel
  obtain ⟨state, executed, proc⟩ := Option.map_eq_some_iff.mp ran
  have reached : Reachable (machine 2 2) state := .of_execute (initial_boot 0) executed
  have free : (state.proc 0).lock = none := by rw [proc]
  have running : (state.proc 0).state = .running := by rw [proc]
  exact ⟨state, reached, free, ((exclusive_execution reached).2.1 0 free).1.mp running⟩

end Xv6.Sched
