import Xv6.Data.Ledger
import Xv6.Sched.Wait

namespace Xv6.Sched

open Xv6.Data Xv6.Transition

/-! # Each exit is waited for at most once

A slot of the process table is a ledger entry: it is taken with a new number, `exit` leaves
the result, and `wait` collects it.
-/

variable {cpus procs : Nat} {state : State cpus procs} {cpu other : Fin cpus}
  {effect : Effect cpus procs} {process self parent : Fin procs}

/-- The number of the process in a slot, and what `exit` left there. -/
def Proc.occupant (proc : Proc cpus procs) : Option (Nat × Option (BitVec 32 × BitVec 32)) :=
  match proc.state with
  | .unused => none
  | .zombie => some (proc.birth, some (proc.pid, proc.xstate))
  | _ => some (proc.birth, none)

def Exit.entry (exit : Exit) : Nat × BitVec 32 × BitVec 32 := (exit.birth, exit.pid, exit.status)

theorem Exit.entry_inj {exit exit' : Exit} (same : exit.entry = exit'.entry) : exit = exit' := by
  cases exit
  cases exit'
  simp only [Exit.entry, Prod.mk.injEq] at same
  simpa using same

structure Records (state : State cpus procs) : Prop where
  ledger : Ledger (fun process => (state.proc process).occupant) state.births
    (state.exits.map Exit.entry) (state.reaped.map fun reaped => reaped.child.entry)
  parent : ∀ reaped ∈ state.reaped, reaped.parent = some reaped.waiter

theorem Proc.occupant_of_zombie {proc : Proc cpus procs} (zombie : proc.state = .zombie) :
    proc.occupant = some (proc.birth, some (proc.pid, proc.xstate)) := by
  rw [Proc.occupant, zombie]

theorem Proc.occupant_of_active {proc : Proc cpus procs} {now : ProcState} (same : proc.state = now)
    (active : now.active = true) : proc.occupant = some (proc.birth, none) := by
  rw [Proc.occupant, same]
  cases now <;> first | rfl | contradiction

theorem occupant_apply {write : Write cpus procs} (written : effect.write = some (process, write))
    (other : Fin procs) :
    ((apply state cpu effect).proc other).occupant =
      overwrite (fun other => (state.proc other).occupant) process
        (write.apply state (state.proc process)).occupant other := by
  rw [apply_proc_some written]
  exact overwrite_map Proc.occupant _ _ _ _

/-- What a write adds to the records of processes. -/
theorem ghosts_apply {write : Write cpus procs} (target : effect.write = some (process, write)) :
    (apply state cpu effect).births = (match write with
      | .alloc => state.births + 1
      | _ => state.births) ∧
    (apply state cpu effect).exits = (match write with
      | .exit status => ⟨(state.proc process).birth, (state.proc process).pid, status⟩ :: state.exits
      | _ => state.exits) ∧
    (apply state cpu effect).reaped = (match write with
      | .reap waiter => ⟨waiter, (state.proc process).parent, (state.proc process).birth,
          (state.proc process).pid, (state.proc process).xstate⟩ :: state.reaped
      | _ => state.reaped) := by
  simp only [apply, target]
  cases write <;> exact ⟨rfl, rfl, rfl⟩

/-- Writes that leave the occupant of a slot alone. -/
def Write.ordinary : Write cpus procs → Bool
  | .alloc | .free | .exit _ | .reap _ => false
  | _ => true

theorem Writes.occupant {code next : Code procs} {write : Write cpus procs} (exec : Exec state)
    (here : (state.cpu cpu).code = code) (writes : Writes state cpu process code next write)
    (ordinary : write.ordinary = true) :
    (write.apply state (state.proc process)).occupant = (state.proc process).occupant := by
  have claimed := exec.claimed cpu process
  rw [here] at claimed
  -- Both before and after, the process is in use and has not exited.
  have active : ∀ {before after : ProcState}, (state.proc process).state = before →
      before.active = true → (write.apply state (state.proc process)).state = after →
      after.active = true →
      (write.apply state (state.proc process)).birth = (state.proc process).birth →
      (write.apply state (state.proc process)).occupant = (state.proc process).occupant := by
    intro before after was inUse now inUse' birth
    rw [Proc.occupant_of_active was inUse, Proc.occupant_of_active now inUse', birth]
  cases writes with
  | wakeup _ sleeping => exact active sleeping rfl rfl rfl rfl
  | kill =>
    refine Write.kill_cases (fun sleeping => ?_) fun _ => rfl
    rw [Proc.occupant_of_active sleeping rfl]
    rfl
  | run runnable => exact active runnable rfl rfl rfl rfl
  | yield | sleep => exact active (claimed rfl) rfl rfl rfl rfl
  | ready => exact active (exec.child_used here rfl) rfl rfl rfl rfl
  | alloc | free | exit | reap => contradiction
  | _ => rfl

theorem Records.kept_ordinary (records : Records state)
    (ordinary : ∀ process write, effect.write = some (process, write) → write.ordinary = true ∧
      (write.apply state (state.proc process)).occupant = (state.proc process).occupant) :
    Records (apply state cpu effect) := by
  have births : (apply state cpu effect).births = state.births := by
    simp only [apply]
    split
    · rename_i found
      exact absurd (ordinary _ _ found).1 Bool.false_ne_true
    · rfl
  have exits : (apply state cpu effect).exits = state.exits := by
    simp only [apply]
    split
    · rename_i found
      exact absurd (ordinary _ _ found).1 Bool.false_ne_true
    · rfl
  have reaped : (apply state cpu effect).reaped = state.reaped := by
    simp only [apply]
    split
    · rename_i found
      exact absurd (ordinary _ _ found).1 Bool.false_ne_true
    · rfl
  constructor
  · rw [births, exits, reaped]
    refine records.ledger.congr fun process => ?_
    refine apply_proc_cases (fun proc => proc.occupant = (state.proc process).occupant)
      (fun write written => (ordinary process write written).2) fun _ => rfl
  · rw [reaped]
    exact records.parent

theorem Records.kept (base : Base state) (waits : Waits state) (records : Records state)
    (transition : Acts state cpu effect) :
    Records (apply state cpu effect) := by
  cases target : effect.write with
  | none =>
    exact records.kept_ordinary fun process write written => by
      rw [target] at written
      contradiction
  | some change =>
    obtain ⟨process, write⟩ := change
    have writes := transition.writes target
    have claimed := base.exec.claimed cpu process
    generalize here : (state.cpu cpu).code = code at writes claimed
    generalize effect.cpu.code = next at writes
    have changed : ∀ other, ((apply state cpu effect).proc other).occupant = _ := occupant_apply target
    have ledger := records.ledger
    by_cases ordinary : write.ordinary = true
    · refine records.kept_ordinary fun other write' written => ?_
      rw [target] at written
      cases written
      exact ⟨ordinary, writes.occupant base.exec here ordinary⟩
    · obtain ⟨births, exits, reaped⟩ := @ghosts_apply _ _ state cpu _ _ _ target
      cases writes with
      | alloc unused =>
        refine ⟨?_, reaped ▸ records.parent⟩
        rw [births, exits, reaped]
        exact ledger.issue changed (by rw [Proc.occupant, unused])
      | free =>
        refine ⟨?_, reaped ▸ records.parent⟩
        rw [births, exits, reaped]
        exact ledger.cancel changed
          (Proc.occupant_of_active (base.exec.child_used here rfl) rfl)
      | exit status =>
        refine ⟨?_, reaped ▸ records.parent⟩
        rw [births, exits, reaped]
        exact ledger.finish changed (Proc.occupant_of_active (claimed rfl) rfl)
      | reap zombie =>
        refine ⟨?_, ?_⟩
        · rw [births, exits, reaped]
          exact ledger.collect changed (Proc.occupant_of_zombie zombie)
        · rw [reaped]
          intro entry member
          cases List.mem_cons.mp member with
          | inl same =>
            subst same
            exact waits.child _ process (.inl ⟨cpu, _, here, rfl⟩)
          | inr older => exact records.parent entry older
      | _ => exact absurd rfl ordinary

theorem initial_records (initial : (machine cpus procs).initial state) : Records state := by
  obtain ⟨_, proc, _, _, _, _, _, births, exits, reaped, _⟩ := initial
  have occupant : ∀ process, (state.proc process).occupant =
      if process = state.initproc then some (0, none) else none := by
    intro process
    rw [proc]
    split <;> rfl
  have first : ∀ {process entry}, (state.proc process).occupant = some entry →
      process = state.initproc ∧ entry = (0, none) := by
    intro process entry found
    rw [occupant] at found
    split at found
    · exact ⟨‹_›, (Option.some.inj found).symm⟩
    · contradiction
  constructor
  · rw [births, exits, reaped]
    constructor
    · intro process ticket result found
      cases (first found).2
      exact Nat.zero_lt_one
    · intro process other ticket result result' found found'
      exact (first found).1.trans (first found').1.symm
    · nofun
    · exact List.nodup_nil
    · nofun
    · intro process ticket result found
      cases (first found).2
    · exact List.nodup_nil
    · nofun
    · nofun
  · rw [reaped]
    nofun

theorem reachable_records (reachable : Reachable (machine cpus procs) state) :
    Base state ∧ Sleepers state ∧ Family state ∧ Waits state ∧ Records state := by
  refine Reachable.invariant (fun state initial => And.intro (initial_base initial)
    (And.intro (initial_sleepers initial) (And.intro (initial_family initial)
      (And.intro (initial_waits initial) (initial_records initial))))) ?_ reachable
  intro before event after held stepped
  obtain ⟨base, sleepers, family, waits, records⟩ := held
  obtain ⟨effect, transition, _, rfl⟩ := step_effect stepped
  exact ⟨base.kept transition, sleepers.kept base transition, family.kept base transition,
    waits.kept base sleepers family transition, records.kept base waits transition⟩

/-- Nobody sleeps in `wait` with an exited child. -/
theorem Waits.none_sleeping (base : Base state) (sleepers : Sleepers state) (waits : Waits state)
    (free : state.spin .wait = none) (child : (state.proc process).parent = some parent)
    (zombie : (state.proc process).state = .zombie)
    (sleeping : (state.proc parent).state = .sleeping) :
    (state.proc parent).chan ≠ some (.proc parent) := by
  intro chan
  have asleep := (sleepers.sleeping parent sleeping).1.trans chan
  obtain ⟨self, point, wakeup, index, status, next, there, found, caller, _⟩ :=
    waits.quiet parent process child zombie asleep
  obtain ⟨cpu, held, _⟩ := Busy.inside base (.inl ⟨self, there⟩) found (congrArg Caller.lock caller)
  have holder : state.spin .wait = some cpu := (base.locks.spin _ _).mpr held
  rw [free] at holder
  contradiction

/-- An exit that has not been waited for is still in the table. -/
theorem Records.exit_kept (records : Records state) {exit : Exit} (member : exit ∈ state.exits) :
    (∃ reaped ∈ state.reaped, reaped.child = exit) ∨
      ∃ process, (state.proc process).state = .zombie ∧
        exit = ⟨(state.proc process).birth, (state.proc process).pid, (state.proc process).xstate⟩ := by
  have listed : exit.entry ∈ state.exits.map Exit.entry := List.mem_map.mpr ⟨exit, member, rfl⟩
  obtain collected | ⟨process, found⟩ := records.ledger.complete _ _ listed
  · obtain ⟨reaped, there, same⟩ := List.mem_map.mp collected
    exact .inl ⟨reaped, there, Exit.entry_inj same⟩
  · refine .inr ⟨process, ?_⟩
    unfold Proc.occupant at found
    split at found
    · contradiction
    · simp only [Option.some.injEq, Prod.mk.injEq] at found
      obtain ⟨birth, pid, status⟩ := found
      exact ⟨‹_›, by rw [birth, pid, status]⟩
    · simp at found

/-- Every process has a parent that can wait for it, and `wait` returns every exit once. -/
theorem exit_waited_once (reachable : Reachable (machine cpus procs) state) :
    (state.spin .wait = none →
      (∀ process parent, process ≠ state.initproc → (state.proc process).parent = some parent →
        (state.proc parent).state ≠ .unused ∧ (state.proc parent).state ≠ .zombie) ∧
      (∀ process, process ≠ state.initproc → (state.proc process).state ≠ .unused →
        (state.proc process).state ≠ .used → (state.proc process).parent ≠ none) ∧
      ∀ process parent, (state.proc process).parent = some parent →
        (state.proc process).state = .zombie →
        ¬((state.proc parent).state = .sleeping ∧ (state.proc parent).chan = some (.proc parent))) ∧
    (state.exits.map Exit.birth).Nodup ∧
    (state.reaped.map fun reaped => reaped.child.birth).Nodup ∧
    (∀ reaped ∈ state.reaped, reaped.child ∈ state.exits ∧ reaped.parent = some reaped.waiter) ∧
    ∀ exit ∈ state.exits, (∃ reaped ∈ state.reaped, reaped.child = exit) ∨
      ∃ process, (state.proc process).state = .zombie ∧ exit =
        ⟨(state.proc process).birth, (state.proc process).pid, (state.proc process).xstate⟩ := by
  obtain ⟨base, sleepers, family, waits, records⟩ := reachable_records reachable
  refine ⟨fun free => ⟨?_, ?_, ?_⟩, ?_, ?_, ?_, fun exit => records.exit_kept⟩
  · intro process parent _ child
    have live := family.parent process parent child
    constructor
    · intro unused
      rw [unused] at live
      contradiction
    · intro zombie
      rw [zombie] at live
      contradiction
  · exact fun process other inUse made => family.child process inUse made other
  · intro process parent child zombie both
    exact waits.none_sleeping base sleepers free child zombie both.1 both.2
  · have once := records.ledger.once
    rwa [List.map_map] at once
  · have once := records.ledger.collectedOnce
    rwa [List.map_map] at once
  · intro reaped member
    refine ⟨?_, records.parent reaped member⟩
    have listed := records.ledger.sound _ (List.mem_map.mpr ⟨reaped, member, rfl⟩)
    obtain ⟨exit, there, same⟩ := List.mem_map.mp listed
    exact Exit.entry_inj same ▸ there

/-- The first process makes a child and waits for it; the child exits with 7. -/
def forkExitWait : List (Event 1 2) :=
  let runs (count : Nat) : List (Event 1 2) := List.replicate count (.run 0 true)
  runs 5 ++ [.call 0 .fork] ++ runs 15 ++ [.call 0 .wait] ++ runs 20 ++ [.call 0 (.exit 7)] ++ runs 30

theorem exit_waited_once_child : ∃ state : State 1 2, Reachable (machine 1 2) state ∧
    state.reaped.length = 1 ∧ state.exits = [⟨1, 2, 7⟩] ∧
    ∀ reaped ∈ state.reaped, reaped.child ∈ state.exits ∧ reaped.parent = some reaped.waiter := by
  have ran : ((machine 1 2).execute (boot 0) forkExitWait).map
      (fun state => (state.reaped.length, state.exits)) = some (1, [⟨1, 2, 7⟩]) := by
    decide +kernel
  obtain ⟨state, executed, facts⟩ := Option.map_eq_some_iff.mp ran
  have reached : Reachable (machine 1 2) state := .of_execute (initial_boot 0) executed
  exact ⟨state, reached, congrArg Prod.fst facts, congrArg Prod.snd facts,
    (exit_waited_once reached).2.2.2.1⟩

end Xv6.Sched
