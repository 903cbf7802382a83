import Xv6.Sched.ExecutionStep

namespace Xv6.Sched

open Xv6.Data Xv6.Transition

/-! # What `kill` reaches

`kill` compares `pid` with every slot of the table, used or not.  `freeproc` leaves `pid` 0
in a slot, so `kill(0)` finds one; and `allocproc` does not reset `killed`.
-/

variable {cpus procs : Nat} {state : State cpus procs} {cpu : Fin cpus}
  {effect : Effect cpus procs} {process self : Fin procs}

/-- The number a `kill` looks for. -/
def Point.sought : Point procs → Option (BitVec 32)
  | .kill pid _ | .killTest pid _ => some pid
  | _ => none

structure Blank (state : State cpus procs) : Prop where
  blank : ∀ process, (state.proc process).state = .unused →
    (state.proc process).pid = 0 ∧ (state.proc process).killed = false
  sought : ∀ self point pid, At state self point → point.sought = some pid → pid ≠ 0

/-- No call of `kill` asks for process 0. -/
def NamesProcess (_ : State cpus procs) (event : Event cpus procs) : Prop :=
  ∀ cpu, event ≠ .call cpu (.kill 0)

instance (state : State cpus procs) (event : Event cpus procs) :
    Decidable (NamesProcess state event) :=
  inferInstanceAs (Decidable (∀ cpu, event ≠ .call cpu (.kill 0)))

variable {place : Point procs} {pid : BitVec 32}

theorem Moves.sought {pc : Pc procs} {change : Change cpus procs}
    (moves : Moves state cpu self place pc change) (found : pc.goal.sought = some pid) :
    place.sought = some pid := by
  cases moves with
  | killLock | killMiss => exact found
  | sleepBack sleep => cases sleep <;> cases found
  | wakeupEnd wakeup => obtain ⟨_, caller, _⟩ := wakeup; cases caller <;> cases found
  | _ => cases found

variable {event : Event cpus procs}

theorem act_kill {index : Nat} (acted : act state event = some effect)
    (here : (state.cpu event.cpu).code = .thread self (.run (.point .idle)))
    (there : effect.cpu.code = .thread self (.run (.point (.kill pid index)))) :
    event = .call event.cpu (.kill pid) := by
  cases event with
  | run cpu ok =>
    rw [Event.cpu] at here
    simp only [act, codeStep, here] at acted
    contradiction
  | call cpu called =>
    rw [Event.cpu] at here
    simp only [act, here] at acted
    cases called with
    | kill other =>
      cases acted
      cases there
      rfl
    | exit status =>
      simp only [call] at acted
      split at acted
      · cases acted
        rw [stop, here] at there
        cases there
      · cases acted
        cases there
    | releasesleep sleeplock =>
      simp only [call, Option.ite_none_right_eq_some] at acted
      cases acted.2
      cases there
    | _ =>
      cases acted
      try cases there
  | preempt cpu =>
    rw [Event.cpu] at here
    simp only [act, here, Option.ite_none_right_eq_some] at acted
    cases acted.2
    cases there
  | interrupt cpu lock chan =>
    rw [Event.cpu] at here
    simp only [act, here] at acted
    contradiction

/-- A slot that is not in use is found by no `kill` for another number than 0. -/
theorem Blank.not_unused (blanks : Blank state)
    (here : (state.cpu cpu).code = .thread self (.run (.point (.killTest pid process))))
    (found : (state.proc process).pid = pid) : (state.proc process).state ≠ .unused := by
  intro unused
  have zero := (blanks.blank process unused).1
  exact blanks.sought self _ pid (.inl ⟨cpu, _, here, rfl⟩) rfl (found.symm.trans zero)

theorem Blank.blank_apply (blanks : Blank state) (transition : Acts state cpu effect)
    (unused : ((apply state cpu effect).proc process).state = .unused) :
    ((apply state cpu effect).proc process).pid = 0 ∧
      ((apply state cpu effect).proc process).killed = false := by
  revert unused
  refine apply_proc_cases (fun proc => proc.state = .unused → proc.pid = 0 ∧ proc.killed = false)
    (fun write written => ?_) fun _ => blanks.blank process
  obtain ⟨code, next, here, _, writes⟩ := transition.wrote written
  cases writes with
  | kill found =>
    exact Write.kill_cases (fun _ => nofun) fun _ unused =>
      absurd unused (blanks.not_unused here found)
  | free | reap => exact fun _ => ⟨rfl, rfl⟩
  | acquire | release | fallAsleep | tidy | save | resume | setup | adopt
  | reparent => exact blanks.blank process
  | _ => nofun

theorem Blank.apply (exec : Exec state) (blanks : Blank state) (named : NamesProcess state event)
    (acted : act state event = some effect) :
    Blank (apply state event.cpu effect) := by
  have transition := act_transition acted
  refine ⟨fun process => blanks.blank_apply transition, fun self point pid after found => ?_⟩
  cases transition.arrives exec after with
  | stays before => exact blanks.sought self point pid before found
  | moves here moves _ goal =>
    subst goal
    exact blanks.sought self _ pid (.inl ⟨event.cpu, _, here, rfl⟩) (moves.sought found)
  | calls here calls after goal =>
    subst goal
    cases calls with
    | kill asked =>
      cases found
      intro zero
      subst zero
      exact named event.cpu (act_kill acted here (by rw [after]; rfl))
    | _ => cases found
  | forked | returns => contradiction

theorem initial_blank (initial : (machine cpus procs).initial state) : Blank state := by
  refine ⟨fun process => ?_, fun self point pid here => absurd here (initial_nowhere initial)⟩
  rw [initial.2.1]
  split
  · nofun
  · exact fun _ => ⟨rfl, rfl⟩

theorem run_blank {history : List (Event cpus procs)}
    (run : Run (machine cpus procs) NamesProcess history state) :
    Locks state ∧ Exec state ∧ Blank state := by
  refine Run.invariant (fun state initial => And.intro (initial_locks initial)
    (And.intro (initial_exec initial) (initial_blank initial))) ?_ run
  intro before event after held named stepped
  obtain ⟨locks, exec, blanks⟩ := held
  obtain ⟨effect, transition, acted, rfl⟩ := step_effect stepped
  exact ⟨(transition.lockStep locks).locks locks, exec.apply locks transition,
    blanks.apply exec named acted⟩

/-- `kill` decides to return 0 when it has found `pid`. -/
theorem Transition.kill_returns {pc : Pc procs} (exec : Exec state)
    (transition : Acts state cpu effect)
    (here : (state.cpu cpu).code = .thread self (.run (.point place)))
    (there : effect.cpu.code = .thread self (.run pc)) (returns : pc.goal = .killReturn 0)
    (new : place ≠ .killReturn 0) :
    ∃ pid process, place = .killTest pid process ∧ (state.proc process).pid = pid := by
  cases transition.arrives_running exec there returns with
  | stays before => exact absurd (exec.at_thread here before) new
  | moves also moves _ goal =>
    rw [here] at also
    cases also
    cases moves with
    | killHit found => exact ⟨_, _, rfl, found⟩
    | sleepBack sleep => cases sleep <;> cases goal
    | wakeupEnd wakeup => obtain ⟨_, caller, _⟩ := wakeup; cases caller <;> cases goal
    | _ => cases goal
  | calls _ calls _ goal => cases calls <;> cases goal

theorem Transition.kill_writes {write : Write cpus procs} (transition : Acts state cpu effect)
    (here : (state.cpu cpu).code = .thread self (.run (.point place)))
    (sought : place.sought = some pid) (written : effect.write = some (process, write)) :
    place = .killTest pid process ∧ (state.proc process).pid = pid := by
  have writes := transition.writes written
  rw [here] at writes
  generalize effect.cpu.code = next at writes
  cases writes with
  | kill found => cases sought; exact ⟨rfl, found⟩
  | acquire acquires => cases acquires
  | release releases => cases releases
  | wakeup at_ =>
    cases at_
    contradiction
  | save _ scheds => cases scheds; contradiction
  | _ => contradiction

theorem kill_reaches_processes {history : List (Event cpus procs)}
    (run : Run (machine cpus procs) NamesProcess history state)
    (acted : act state event = some effect) :
    (∀ self place pc, (state.cpu event.cpu).code = .thread self (.run (.point place)) →
      effect.cpu.code = .thread self (.run pc) → pc.goal = .killReturn 0 → place ≠ .killReturn 0 →
      ∃ pid process, place = .killTest pid process ∧ (state.proc process).pid = pid ∧
        (state.proc process).state ≠ .unused) ∧
    (∀ self place process, (state.cpu event.cpu).code = .thread self (.run (.point place)) →
      place.sought.isSome → (state.proc process).state = .unused →
      (apply state event.cpu effect).proc process = state.proc process) ∧
    ∀ process, effect.write = some (process, .alloc) →
      ((apply state event.cpu effect).proc process).killed = false := by
  obtain ⟨_, exec, blanks⟩ := run_blank run
  have transition := act_transition acted
  refine ⟨?_, ?_, ?_⟩
  · intro self place pc here there returns new
    obtain ⟨pid, process, rfl, found⟩ := transition.kill_returns exec here there returns new
    exact ⟨pid, process, rfl, found, blanks.not_unused here found⟩
  · intro self place process here isSome unused
    obtain ⟨pid, sought⟩ := Option.isSome_iff_exists.mp isSome
    refine apply_proc_cases (fun proc => proc = state.proc process) (fun write written => ?_) fun _ => rfl
    obtain ⟨rfl, found⟩ := transition.kill_writes here sought written
    exact absurd unused (blanks.not_unused here found)
  · intro process written
    have writes := transition.writes written
    generalize (state.cpu event.cpu).code = code at writes
    generalize effect.cpu.code = next at writes
    rw [apply_proc_self written]
    cases writes with
    | alloc unused => exact (blanks.blank process unused).2

/-- The first process runs, and calls `kill`. -/
def firstKill (pid : BitVec 32) : List (Event 1 2) :=
  [.run 0 true, .run 0 true, .run 0 true, .run 0 true, .run 0 true, .call 0 (.kill pid), .run 0 true,
    .run 0 true]

theorem kill_reaches_processes_itself : ∃ state : State 1 2, ∃ history,
    Run (machine 1 2) NamesProcess history state ∧
      (state.cpu 0).code = .thread 0 (.run (.point (.killTest 1 0))) ∧
      (state.proc 0).pid = 1 ∧ (state.proc 0).state ≠ .unused := by
  have ran : ((machine 1 2).guarded NamesProcess (boot 0) (firstKill 1)).map
      (fun state => ((state.cpu 0).code, (act state (.run 0 true)).map fun effect => effect.cpu.code)) =
      some (.thread 0 (.run (.point (.killTest 1 0))),
        some (.thread 0 (.run (.release (.proc 0) (.point (.killReturn 0)))))) := by
    decide +kernel
  obtain ⟨state, executed, facts⟩ := Option.map_eq_some_iff.mp ran
  have here := congrArg Prod.fst facts
  obtain ⟨effect, acted, there⟩ := Option.map_eq_some_iff.mp (congrArg Prod.snd facts)
  have run := (Run.start (initial_boot 0)).guarded executed
  obtain ⟨pid, process, same, found, alive⟩ :=
    (kill_reaches_processes run acted).1 0 _ _ here there rfl nofun
  cases same
  exact ⟨state, _, run, here, found, alive⟩

/-- Process 0 asks for process 0, and gets the free slot 1; then it calls `fork`. -/
def killNobody : List (Event 1 2) :=
  firstKill 0 ++ [.run 0 true, .run 0 true, .run 0 true, .run 0 true]

def forkVictim : List (Event 1 2) :=
  [.run 0 true, .run 0 true, .run 0 true, .call 0 .fork, .run 0 true, .run 0 true, .run 0 true,
    .run 0 true, .run 0 true, .run 0 true, .run 0 true, .run 0 true, .run 0 true, .run 0 true,
    .run 0 true, .run 0 true, .run 0 true, .run 0 true, .run 0 true]

theorem kill_zero_marks_child : ∃ found forked : State 1 2, Reachable (machine 1 2) found ∧
    (found.cpu 0).code = .thread 0 (.run (.point (.killTest 0 1))) ∧
    (found.proc 1).state = .unused ∧
    ((machine 1 2).step found (.run 0 true)).map
        (fun after => ((after.cpu 0).code, (after.proc 1).killed)) =
      some (.thread 0 (.run (.release (.proc 1) (.point (.killReturn 0)))), true) ∧
    (machine 1 2).execute found forkVictim = some forked ∧
    (forked.proc 1).state = .runnable ∧ (forked.proc 1).killed = true := by
  have ran : ((machine 1 2).execute (boot 0) killNobody).map
      (fun found => ((found.cpu 0).code, (found.proc 1).state)) =
      some (.thread 0 (.run (.point (.killTest 0 1))), .unused) := by
    decide +kernel
  have kills : (((machine 1 2).execute (boot 0) killNobody).bind fun found =>
      ((machine 1 2).step found (.run 0 true)).map
        fun after => ((after.cpu 0).code, (after.proc 1).killed)) =
      some (.thread 0 (.run (.release (.proc 1) (.point (.killReturn 0)))), true) := by
    decide +kernel
  have forks : (((machine 1 2).execute (boot 0) killNobody).bind fun found =>
      ((machine 1 2).execute found forkVictim).map
        fun forked => ((forked.proc 1).state, (forked.proc 1).killed)) = some (.runnable, true) := by
    decide +kernel
  obtain ⟨found, executed, facts⟩ := Option.map_eq_some_iff.mp ran
  rw [executed] at kills forks
  obtain ⟨forked, rest, child⟩ := Option.map_eq_some_iff.mp forks
  exact ⟨found, forked, .of_execute (initial_boot 0) executed, congrArg Prod.fst facts,
    congrArg Prod.snd facts, kills, rest, congrArg Prod.fst child, congrArg Prod.snd child⟩

end Xv6.Sched
