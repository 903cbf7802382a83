import Xv6.Sched.Places

namespace Xv6.Sched

open Xv6.Data Xv6.Transition

/-! # Sleepers and calls of `wakeup`

A process counts as asleep from the moment `sleep` has its lock and is about to give up the
other one.  Whoever finds the lock of such a process free finds it SLEEPING; and so the loop
of `wakeup` leaves nobody behind who was asleep when it was called.
-/

variable {cpus procs : Nat} {state : State cpus procs} {cpu other : Fin cpus}
  {effect : Effect cpus procs} {process self : Fin procs} {point place : Point procs}
  {wakeup : Wakeup procs} {index : Nat} {chan : Channel procs} {spinlock : Spinlock}

/-! ## Loops of `wakeup` -/

/-- The call and the slots that it is done with. -/
def Point.loop : Point procs → Option (Wakeup procs × Nat)
  | .wakeup call index => some (call, index)
  | .wakeupTest call process => some (call, process)
  | _ => none

/-- A process or an interrupt handler is on the way to a point. -/
def Busy (state : State cpus procs) (point : Point procs) : Prop :=
  (∃ self, At state self point) ∨
    ∃ cpu index pc, (state.cpu cpu).code = .handler index pc ∧ pc.goal = point

/-- A step within the loop. -/
inductive Scans (state : State cpus procs) (cpu : Fin cpus) (wakeup : Wakeup procs) :
    Point procs → Nat → Option (Fin procs × Write cpus procs) → Prop where
  | skip {index : Nat} (inside : index < procs)
      (current : (state.cpu cpu).proc = some ⟨index, inside⟩) :
      Scans state cpu wakeup (.wakeup wakeup index) (index + 1) none
  | lock (process : Fin procs) : Scans state cpu wakeup (.wakeup wakeup process) process none
  | hit (process : Fin procs) :
      Scans state cpu wakeup (.wakeupTest wakeup process) (process + 1) (some (process, .wakeup))
  | miss {process : Fin procs}
      (awake : ¬((state.proc process).state = .sleeping ∧ (state.proc process).chan = wakeup.chan)) :
      Scans state cpu wakeup (.wakeupTest wakeup process) (process + 1) none

/-- How a loop gets to a slot. -/
inductive Looping (state : State cpus procs) (cpu : Fin cpus) (effect : Effect cpus procs)
    (point : Point procs) (wakeup : Wakeup procs) (index : Nat) : Prop where
  | stays (before : Busy state point)
  | starts (first : index = 0) (clock : wakeup.clock = state.clock)
      (awake : ∀ process chan, effect.write ≠ some (process, .fallAsleep chan))
  | scans {place : Point procs} (here : (state.cpu cpu).code.point = some place)
      (scans : Scans state cpu wakeup place index effect.write)

theorem Caller.after_loop (caller : Caller procs) : caller.after.goal.loop = none := by
  cases caller <;> rfl

theorem Scans.loop {write : Option (Fin procs × Write cpus procs)}
    (scans : Scans state cpu wakeup place index write) :
    ∃ before, place.loop = some (wakeup, before) := by
  cases scans <;> exact ⟨_, rfl⟩

theorem Moves.looping {pc : Pc procs} {change : Change cpus procs}
    (moves : Moves state cpu self place pc change) (found : pc.goal.loop = some (wakeup, index)) :
    (index = 0 ∧ wakeup.clock = state.clock ∧
      ∀ process chan, change.write ≠ some (process, .fallAsleep chan)) ∨
    Scans state cpu wakeup place index change.write := by
  cases moves with
  | wakeupSkip wakeup inside current => cases found; exact .inr (.skip inside current)
  | wakeupLock wakeup process => cases found; exact .inr (.lock process)
  | wakeupHit wakeup => cases found; exact .inr (.hit _)
  | wakeupMiss wakeup awake => cases found; exact .inr (.miss awake)
  | wakeupEnd wakeup => rw [wakeup.caller.after_loop] at found; contradiction
  | reparentHit | reparentEnd | releasesleepClear => cases found; exact .inl ⟨rfl, rfl, nofun⟩
  | sleepBack sleep => cases sleep <;> cases found
  | _ => cases found

theorem Calls.looping {pc : Pc procs} {change : Change cpus procs}
    (calls : Calls state self place pc change) (found : pc.goal.loop = some (wakeup, index)) :
    index = 0 ∧ wakeup.clock = state.clock := by
  cases calls with
  | wakeup | wakeupHeld => cases found; exact ⟨rfl, rfl⟩
  | _ => cases found

theorem Handles.looping {pc next : Pc procs} {write : Option (Fin procs × Write cpus procs)}
    (handles : Handles state cpu pc next write) (found : next.goal.loop = some (wakeup, index)) :
    (index = 0 ∧ wakeup.clock = state.clock ∧
      ∀ process chan, write ≠ some (process, .fallAsleep chan)) ∨
    ∃ place, pc = .point place ∧ Scans state cpu wakeup place index write := by
  cases handles with
  | start => cases found; exact .inl ⟨rfl, rfl, nofun⟩
  | skip wakeup inside current => cases found; exact .inr ⟨_, rfl, .skip inside current⟩
  | lock wakeup process => cases found; exact .inr ⟨_, rfl, .lock process⟩
  | finish wakeup => rw [wakeup.caller.after_loop] at found; contradiction
  | hit wakeup => cases found; exact .inr ⟨_, rfl, .hit _⟩
  | miss wakeup awake => cases found; exact .inr ⟨_, rfl, .miss awake⟩

theorem Transition.looping_handler {pc : Pc procs} {number : Nat}
    (transition : Acts state cpu effect)
    (there : effect.cpu.code = .handler number pc) (goal : pc.goal = point)
    (found : point.loop = some (wakeup, index)) :
    Looping state cpu effect point wakeup index := by
  subst goal
  have stays : ∀ {before : Pc procs}, (state.cpu cpu).code = .handler number before →
      before.goal = pc.goal → Looping state cpu effect pc.goal wakeup index := by
    intro before here same
    exact .stays (.inr ⟨cpu, number, before, here, same⟩)
  obtain ⟨code, here, transition⟩ := transition.code
  rw [here] at stays
  cases transition with
  | stop => exact stays (here.symm.trans there) rfl
  | acquireProc acquires
  | acquireSpin acquires => cases acquires <;> cases there; exact stays rfl rfl
  | releaseProc releases
  | releaseSpin releases => cases releases <;> cases there; exact stays rfl rfl
  | interrupt => cases there; contradiction
  | handles handles =>
    cases there
    obtain ⟨first, clock, awake⟩ | ⟨place, rfl, scans⟩ := handles.looping found
    · exact .starts first clock awake
    · exact .scans (by rw [here]; rfl) scans
  | _ => contradiction

theorem Transition.looping (exec : Exec state) (transition : Acts state cpu effect)
    (after : Busy (apply state cpu effect) point) (found : point.loop = some (wakeup, index)) :
    Looping state cpu effect point wakeup index := by
  obtain ⟨self, there⟩ | ⟨other, number, pc, there, goal⟩ := after
  · cases transition.arrives exec there with
    | stays before => exact .stays (.inl ⟨self, before⟩)
    | moves here moves after goal =>
      subst goal after
      obtain ⟨first, clock, awake⟩ | scans := moves.looping found
      · exact .starts first clock awake
      · exact .scans (by rw [here]; rfl) scans
    | calls here calls after goal =>
      subst goal after
      obtain ⟨first, clock⟩ := calls.looping found
      refine .starts first clock fun process chan written => ?_
      cases calls <;> cases written
    | forked | returns => contradiction
  · rw [apply_cpu] at there
    cases overwrite_cases (p := fun entry : Cpu procs => entry.code = .handler number pc) there with
    | inl mine => exact transition.looping_handler mine.2 goal found
    | inr theirs => exact .stays (.inr ⟨other, number, pc, theirs.2, goal⟩)

/-- A point that code is at is one it is on the way to. -/
theorem Busy.of_point (here : (state.cpu cpu).code.point = some place) : Busy state place := by
  generalize code : (state.cpu cpu).code = current at here
  cases current with
  | scheduler => contradiction
  | handler number pc =>
    cases pc with
    | point => cases here; exact .inr ⟨cpu, number, _, code, rfl⟩
    | _ => contradiction
  | thread self thread =>
    cases thread with
    | run pc =>
      cases pc with
      | point => cases here; exact .inl ⟨self, .inl ⟨cpu, _, code, rfl⟩⟩
      | _ => contradiction
    | _ => contradiction

/-- The spin lock of a loop is held by the CPU that executes it. -/
theorem Busy.inside (base : Base state) (busy : Busy state point)
    (found : point.loop = some (wakeup, index)) (held : wakeup.caller.lock = some spinlock) :
    ∃ cpu, (state.cpu cpu).code.spin = some spinlock ∧
      ((∃ self pc, (state.cpu cpu).code = .thread self (.run pc) ∧ pc.goal = point) ∨
        ∃ number pc, (state.cpu cpu).code = .handler number pc) := by
  have inside : point.inside = true := by
    cases point <;> first | rfl | contradiction
  have spin : point.spin = some spinlock := by
    cases point <;> cases found <;> exact held
  obtain ⟨self, there⟩ | ⟨cpu, number, pc, here, goal⟩ := busy
  · obtain ⟨cpu, pc, here, goal, spin⟩ := there.inside base.locks base.shapes inside spin
    exact ⟨cpu, spin, .inl ⟨self, pc, here, goal⟩⟩
  · have shape := base.shapes.code cpu
    rw [here] at shape
    subst goal
    refine ⟨cpu, ?_, .inr ⟨number, pc, here⟩⟩
    rw [here]
    exact (Pc.spin_of_spinless (shape.spinless inside)).trans spin

/-- A loop under a spin lock goes on until it has seen the whole table. -/
theorem Base.loop_kept (base : Base state)
    (transition : Acts state cpu effect) (there : At state self point)
    (found : point.loop = some (wakeup, index)) (held : wakeup.caller.lock = some spinlock) :
    (∃ next later, At (apply state cpu effect) self next ∧ next.loop = some (wakeup, later)) ∨
      procs ≤ index ∧ effect.write = none := by
  have inside : point.inside = true := by cases point <;> first | rfl | contradiction
  have spin : point.spin = some spinlock := by cases point <;> cases found <;> exact held
  obtain ⟨other, pc, here, goal, _⟩ := there.inside base.locks base.shapes inside spin
  cases Decidable.eq_or_ne other cpu with
  | inr different => exact .inl ⟨point, index, goal ▸ .elsewhere different here, found⟩
  | inl same =>
    subst same
    cases transition.departs here with
    | stays after same => exact .inl ⟨point, index, same.trans goal ▸ .now after, found⟩
    | moves at_ moves after =>
      subst at_ after
      cases goal
      cases moves with
      | wakeupSkip | wakeupLock | wakeupHit
      | wakeupMiss => cases found; exact .inl ⟨_, _, .now rfl, rfl⟩
      | wakeupEnd call outside => cases found; exact .inr ⟨outside, rfl⟩
      | _ => contradiction
    | calls at_ calls =>
      subst at_
      cases goal
      cases calls <;> contradiction
    | sched at_ =>
      subst at_
      cases goal
      contradiction

/-! ## Sleepers -/

/-- The lock that every `sleep` on the channel gives up. -/
def Channel.lock : Channel procs → Option Spinlock
  | .proc _ => some .wait
  | .sleeplock index => some (.inner index)
  | .other _ => none

theorem Sleep.lock_of_chan {sleep : Sleep} (same : sleep.chan self = chan)
    (owner : chan.lock = some spinlock) : sleep.lock = spinlock := by
  subst same
  cases sleep with
  | wait | acquiresleep => cases owner; rfl
  | other => contradiction

structure Sleepers (state : State cpus procs) : Prop where
  asleep : ∀ process chan, (state.proc process).asleep = some chan →
    ((state.proc process).state = .sleeping ∧ (state.proc process).chan = some chan) ∨
      ∃ sleep, At state process (.sleepMark sleep) ∧ sleep.chan process = chan
  falling : ∀ process sleep, At state process (.sleepMark sleep) →
    (state.proc process).asleep = some (sleep.chan process)
  sleeping : ∀ process, (state.proc process).state = .sleeping →
    (state.proc process).asleep = (state.proc process).chan ∧ (state.proc process).chan ≠ none
  since : ∀ process chan, (state.proc process).asleep = some chan →
    (state.proc process).since < state.clock
  clock : ∀ point wakeup index, Busy state point → point.loop = some (wakeup, index) →
    wakeup.clock ≤ state.clock
  passed : ∀ point wakeup index chan process, Busy state point →
    point.loop = some (wakeup, index) → wakeup.chan = some chan → process.val < index →
    (state.proc process).asleep = some chan → wakeup.clock ≤ (state.proc process).since
  early : ∀ point wakeup index chan lock process, Busy state point →
    point.loop = some (wakeup, index) → wakeup.chan = some chan → chan.lock = some lock →
    wakeup.caller.lock = some lock → (state.proc process).asleep = some chan →
    (state.proc process).since < wakeup.clock

/-! ### What a step does to a sleeper -/

theorem clock_le (state : State cpus procs) (cpu : Fin cpus) (effect : Effect cpus procs) :
    state.clock ≤ (apply state cpu effect).clock := by
  simp only [apply]
  split
  · exact Nat.le_succ _
  · exact Nat.le_refl _

theorem asleep_cases (after : ((apply state cpu effect).proc process).asleep = some chan) :
    (state.proc process).asleep = some chan ∧
        ((apply state cpu effect).proc process).since = (state.proc process).since ∨
      effect.write = some (process, .fallAsleep chan) ∧
        ((apply state cpu effect).proc process).since = state.clock := by
  revert after
  refine apply_proc_cases (fun proc => proc.asleep = some chan →
    (state.proc process).asleep = some chan ∧ proc.since = (state.proc process).since ∨
      effect.write = some (process, .fallAsleep chan) ∧ proc.since = state.clock)
    (fun write written => ?_) fun _ before => .inl ⟨before, rfl⟩
  cases write with
  | fallAsleep => rintro ⟨⟩; exact .inr ⟨written, rfl⟩
  | wakeup => nofun
  | kill => exact Write.kill_cases (fun _ => nofun) fun _ before => .inl ⟨before, rfl⟩
  | _ => exact fun before => .inl ⟨before, rfl⟩

/-- What a step does to a process that is SLEEPING: it is made RUNNABLE, or nothing. -/
theorem Transition.sleeping_kept (exec : Exec state) (transition : Acts state cpu effect)
    (sleeping : (state.proc process).state = .sleeping) :
    (((apply state cpu effect).proc process).state = .runnable ∧
        ((apply state cpu effect).proc process).asleep = none) ∨
      ((apply state cpu effect).proc process).state = .sleeping ∧
        ((apply state cpu effect).proc process).chan = (state.proc process).chan ∧
        ((apply state cpu effect).proc process).asleep = (state.proc process).asleep := by
  refine apply_proc_cases (fun proc => (proc.state = .runnable ∧ proc.asleep = none) ∨
    proc.state = .sleeping ∧ proc.chan = (state.proc process).chan ∧
      proc.asleep = (state.proc process).asleep) (fun write written => ?_)
    fun _ => .inr ⟨sleeping, rfl, rfl⟩
  have writes := transition.writes written
  have claimed := exec.claimed cpu process
  generalize here : (state.cpu cpu).code = code at writes claimed
  generalize effect.cpu.code = next at writes
  have impossible : ∀ {state' : ProcState}, (state.proc process).state = state' →
      state' ≠ .sleeping → False := fun same different => different (same.symm.trans sleeping)
  cases writes with
  | wakeup => exact .inl ⟨rfl, rfl⟩
  | kill => exact Write.kill_cases (fun _ => .inl ⟨rfl, rfl⟩) fun awake => absurd sleeping awake
  | acquire | release | adopt | reparent | save => exact .inr ⟨sleeping, rfl, rfl⟩
  | run runnable => exact (impossible runnable nofun).elim
  | alloc unused => exact (impossible unused nofun).elim
  | reap zombie => exact (impossible zombie nofun).elim
  | setup | free | ready => exact (impossible (exec.child_used here rfl) nofun).elim
  | _ => exact (impossible (claimed rfl) nofun).elim

/-- A process about to mark itself SLEEPING does so next, whatever the others do. -/
theorem Base.falling_kept (base : Base state) {sleep : Sleep} (transition : Acts state cpu effect)
    (falling : At state process (.sleepMark sleep)) :
    ((apply state cpu effect).proc process).asleep = (state.proc process).asleep ∧
      (At (apply state cpu effect) process (.sleepMark sleep) ∨
        ((apply state cpu effect).proc process).state = .sleeping ∧
          ((apply state cpu effect).proc process).chan = some (sleep.chan process)) := by
  obtain ⟨other, pc, here, goal, held⟩ := falling.leaving base.locks base.shapes rfl
  cases Decidable.eq_or_ne other cpu with
  | inr different =>
    obtain ⟨parent, same⟩ := base.locks.untouched held different transition
    rw [same]
    exact ⟨rfl, .inl (goal ▸ .elsewhere different here)⟩
  | inl same =>
    subst same
    cases transition.departs here with
    | stays there same quiet =>
      obtain ⟨lock, unchanged⟩ := quiet process
      rw [unchanged]
      exact ⟨rfl, .inl (same.trans goal ▸ .now there)⟩
    | moves at_ moves after =>
      subst at_ after
      cases goal
      cases moves
      rw [apply_proc_self rfl]
      exact ⟨rfl, .inr ⟨rfl, rfl⟩⟩
    | calls at_ calls =>
      subst at_
      cases goal
      cases calls
    | sched at_ =>
      subst at_
      contradiction

theorem Sleepers.awake (base : Base state) (sleepers : Sleepers state)
    (here : (state.cpu cpu).code.point = some (.wakeup wakeup index))
    (current : (state.cpu cpu).proc = some process) : (state.proc process).asleep = none := by
  rw [base.exec.current cpu] at current
  generalize code : (state.cpu cpu).code = now at here current
  cases now with
  | scheduler | handler => contradiction
  | thread self thread =>
    cases current
    cases thread with
    | run pc =>
      cases pc with
      | point =>
        cases here
        have running := base.exec.claimed cpu process (by rw [code]; rfl)
        rw [code] at running
        cases asleep : (state.proc process).asleep with
        | none => rfl
        | some chan =>
          obtain ⟨sleeping, _⟩ | ⟨sleep, falling, _⟩ := sleepers.asleep process chan asleep
          · rw [running] at sleeping
            contradiction
          · exact absurd (base.exec.at_thread code falling) nofun
      | _ => contradiction
    | _ => contradiction

/-- `wakeup` finds a process that is asleep SLEEPING. -/
theorem Sleepers.found (base : Base state) (sleepers : Sleepers state)
    (here : (state.cpu cpu).code.point = some (.wakeupTest wakeup process))
    (asleep : (state.proc process).asleep = some chan) :
    (state.proc process).state = .sleeping ∧ (state.proc process).chan = some chan := by
  obtain found | ⟨sleep, falling, _⟩ := sleepers.asleep process chan asleep
  · exact found
  · obtain ⟨other, pc, on, goal, held⟩ := falling.leaving base.locks base.shapes rfl
    have mine : (state.cpu cpu).code.plock = some process := by
      generalize (state.cpu cpu).code = code at here
      cases code with
      | scheduler => contradiction
      | handler number pc => cases pc <;> cases here; rfl
      | thread self thread =>
        cases thread with
        | run pc => cases pc <;> cases here; rfl
        | _ => contradiction
    have same := base.locks.proc.unique mine held
    subst same
    rw [on] at here
    cases pc <;> cases here
    contradiction

/-! ### The invariant is kept -/

section

variable (base : Base state) (sleepers : Sleepers state)
  (transition : Acts state cpu effect)

include base sleepers transition

theorem Sleepers.asleep_apply (after : ((apply state cpu effect).proc process).asleep = some chan) :
    (((apply state cpu effect).proc process).state = .sleeping ∧
      ((apply state cpu effect).proc process).chan = some chan) ∨
    ∃ sleep, At (apply state cpu effect) process (.sleepMark sleep) ∧ sleep.chan process = chan := by
  obtain ⟨before, _⟩ | ⟨written, _⟩ := asleep_cases after
  · obtain ⟨sleeping, same⟩ | ⟨sleep, falling, same⟩ := sleepers.asleep process chan before
    · obtain ⟨_, woken⟩ | ⟨still, kept, _⟩ := transition.sleeping_kept base.exec sleeping
      · rw [woken] at after
        contradiction
      · exact .inl ⟨still, kept.trans same⟩
    · obtain ⟨_, still | ⟨asleep, on⟩⟩ := base.falling_kept transition falling
      · exact .inr ⟨sleep, still, same⟩
      · exact .inl ⟨asleep, same ▸ on⟩
  · obtain ⟨code, next, _, there, writes⟩ := transition.wrote written
    cases writes with
    | fallAsleep sleep => exact .inr ⟨sleep, .now there, rfl⟩

theorem Sleepers.falling_apply {sleep : Sleep}
    (after : At (apply state cpu effect) process (.sleepMark sleep)) :
    ((apply state cpu effect).proc process).asleep = some (sleep.chan process) := by
  cases transition.arrives base.exec after with
  | stays before =>
    rw [(base.falling_kept transition before).1]
    exact sleepers.falling process sleep before
  | moves here moves after goal =>
    subst after
    cases moves with
    | sleepBegin =>
      cases goal
      rw [apply_proc_self rfl]
      rfl
    | sleepBack sleep => cases sleep <;> cases goal
    | wakeupEnd wakeup => obtain ⟨_, caller, _⟩ := wakeup; cases caller <;> cases goal
    | _ => cases goal
  | calls _ calls _ goal => cases calls <;> cases goal

theorem Sleepers.sleeping_apply (after : ((apply state cpu effect).proc process).state = .sleeping) :
    ((apply state cpu effect).proc process).asleep = ((apply state cpu effect).proc process).chan ∧
      ((apply state cpu effect).proc process).chan ≠ none := by
  by_cases before : (state.proc process).state = .sleeping
  · obtain ⟨same, some⟩ := sleepers.sleeping process before
    obtain ⟨runnable, _⟩ | ⟨_, chan, asleep⟩ := transition.sleeping_kept base.exec before
    · rw [runnable] at after
      contradiction
    · rw [chan, asleep]
      exact ⟨same, some⟩
  · revert after
    refine apply_proc_cases (fun proc => proc.state = .sleeping →
      proc.asleep = proc.chan ∧ proc.chan ≠ none) (fun write written => ?_)
      fun _ sleeping => absurd sleeping before
    obtain ⟨code, next, here, _, writes⟩ := transition.wrote written
    cases writes with
    | sleep sleep =>
      intro _
      exact ⟨sleepers.falling process sleep (.inl ⟨cpu, _, here, rfl⟩), nofun⟩
    | kill => exact Write.kill_cases (fun _ => nofun) fun _ sleeping => absurd sleeping before
    | wakeup | run | yield | alloc | free | reap | ready | exit => nofun
    | _ => exact fun sleeping => absurd sleeping before

omit base transition in
theorem Sleepers.since_apply (after : ((apply state cpu effect).proc process).asleep = some chan) :
    ((apply state cpu effect).proc process).since < (apply state cpu effect).clock := by
  obtain ⟨before, since⟩ | ⟨written, since⟩ := asleep_cases after
  · rw [since]
    exact Nat.lt_of_lt_of_le (sleepers.since process chan before) (clock_le state cpu effect)
  · rw [since]
    simp only [apply, written]
    exact Nat.lt_succ_self _

theorem Sleepers.clock_before (busy : Busy (apply state cpu effect) point)
    (found : point.loop = some (wakeup, index)) : wakeup.clock ≤ state.clock := by
  cases transition.looping base.exec busy found with
  | stays before => exact sleepers.clock point wakeup index before found
  | starts _ clock => exact Nat.le_of_eq clock
  | scans here scans =>
    obtain ⟨earlier, loop⟩ := scans.loop
    exact sleepers.clock _ wakeup earlier (.of_point here) loop

theorem Sleepers.passed_apply (busy : Busy (apply state cpu effect) point)
    (found : point.loop = some (wakeup, index)) (on : wakeup.chan = some chan)
    (done : process.val < index)
    (after : ((apply state cpu effect).proc process).asleep = some chan) :
    wakeup.clock ≤ ((apply state cpu effect).proc process).since := by
  obtain ⟨before, since⟩ | ⟨_, since⟩ := asleep_cases after
  · rw [since]
    cases transition.looping base.exec busy found with
    | stays earlier => exact sleepers.passed point wakeup index chan process earlier found on done before
    | starts first => omega
    | scans here scans =>
      generalize wrote : effect.write = write at scans
      cases scans with
      | skip inside current =>
        cases Nat.lt_succ_iff_lt_or_eq.mp done with
        | inl below =>
          exact sleepers.passed _ wakeup _ chan process (.of_point here) rfl on below before
        | inr same =>
          have itself : process = ⟨_, inside⟩ := Fin.ext same
          rw [itself, sleepers.awake base here current] at before
          contradiction
      | lock => exact sleepers.passed _ wakeup _ chan process (.of_point here) rfl on done before
      | hit target =>
        cases Nat.lt_succ_iff_lt_or_eq.mp done with
        | inl below =>
          exact sleepers.passed _ wakeup _ chan process (.of_point here) rfl on below before
        | inr same =>
          have itself : process = target := Fin.ext same
          subst itself
          rw [apply_proc_self wrote] at after
          contradiction
      | miss awake =>
        cases Nat.lt_succ_iff_lt_or_eq.mp done with
        | inl below =>
          exact sleepers.passed _ wakeup _ chan process (.of_point here) rfl on below before
        | inr same =>
          have itself := Fin.ext same
          subst itself
          have found := sleepers.found base here before
          exact absurd ⟨found.1, found.2.trans on.symm⟩ awake
  · rw [since]
    exact sleepers.clock_before base transition busy found

theorem Sleepers.early_apply (busy : Busy (apply state cpu effect) point)
    (found : point.loop = some (wakeup, index)) (on : wakeup.chan = some chan)
    (owner : chan.lock = some spinlock) (held : wakeup.caller.lock = some spinlock)
    (after : ((apply state cpu effect).proc process).asleep = some chan) :
    ((apply state cpu effect).proc process).since < wakeup.clock := by
  have looping := transition.looping base.exec busy found
  obtain ⟨before, since⟩ | ⟨written, since⟩ := asleep_cases after
  · rw [since]
    cases looping with
    | stays earlier =>
      exact sleepers.early point wakeup index chan spinlock process earlier found on owner held before
    | starts _ clock =>
      rw [clock]
      exact sleepers.since process chan before
    | scans here scans =>
      obtain ⟨earlier, loop⟩ := scans.loop
      exact sleepers.early _ wakeup earlier chan spinlock process (.of_point here) loop on owner held
        before
  · -- To fall asleep takes the lock that the loop has.
    obtain ⟨code, next, falls, _, writes⟩ := transition.wrote written
    cases writes with
    | fallAsleep sleep =>
      have mine : (state.cpu cpu).code.spin = some spinlock := by
        rw [falls]
        exact congrArg some (Sleep.lock_of_chan rfl owner)
      cases looping with
      | stays earlier =>
        obtain ⟨other, theirs, who⟩ := earlier.inside base found held
        have same := base.locks.spin.unique mine theirs
        subst same
        obtain ⟨self, pc, here, goal⟩ | ⟨number, pc, here⟩ := who
        · rw [falls] at here
          cases here
          subst goal
          contradiction
        · rw [falls] at here
          contradiction
      | starts _ _ awake => exact absurd written (awake process _)
      | scans here scans =>
        rw [falls] at here
        cases here
        obtain ⟨_, loop⟩ := scans.loop
        contradiction

theorem Sleepers.kept : Sleepers (apply state cpu effect) where
  asleep _ _ := sleepers.asleep_apply base transition
  falling _ _ := sleepers.falling_apply base transition
  sleeping _ := sleepers.sleeping_apply base transition
  since _ _ := sleepers.since_apply
  clock _ _ _ busy found :=
    Nat.le_trans (sleepers.clock_before base transition busy found) (clock_le state cpu effect)
  passed _ _ _ _ _ := sleepers.passed_apply base transition
  early _ _ _ _ _ _ := sleepers.early_apply base transition

end

theorem initial_sleepers (initial : (machine cpus procs).initial state) : Sleepers state := by
  have nowhere {self : Fin procs} {point : Point procs} : ¬At state self point := initial_nowhere initial
  have quiet : ∀ {point}, ¬Busy state point := by
    rintro point (⟨self, there⟩ | ⟨cpu, number, pc, here, _⟩)
    · exact nowhere there
    · rw [initial.1] at here
      contradiction
  have awake : ∀ process, (state.proc process).asleep = none ∧
      (state.proc process).state ≠ .sleeping := by
    intro process
    rw [initial.2.1]
    split <;> exact ⟨rfl, nofun⟩
  constructor
  · intro process chan asleep
    rw [(awake process).1] at asleep
    contradiction
  · intro process sleep falling
    exact absurd falling nowhere
  · intro process sleeping
    exact absurd sleeping (awake process).2
  · intro process chan asleep
    rw [(awake process).1] at asleep
    contradiction
  · intro point wakeup index busy
    exact absurd busy quiet
  · intro point wakeup index chan process busy
    exact absurd busy quiet
  · intro point wakeup index chan lock process busy
    exact absurd busy quiet

/-- A loop under the lock that sleepers give up leaves nobody asleep. -/
theorem Sleepers.finished (sleepers : Sleepers state) (busy : Busy state point)
    (found : point.loop = some (wakeup, index)) (outside : procs ≤ index)
    (on : wakeup.chan = some chan) (owner : chan.lock = some spinlock)
    (held : wakeup.caller.lock = some spinlock) : (state.proc process).asleep ≠ some chan := by
  intro asleep
  have late := sleepers.passed point wakeup index chan process busy found on
    (Nat.lt_of_lt_of_le process.isLt outside) asleep
  have early := sleepers.early point wakeup index chan spinlock process busy found on owner held asleep
  exact Nat.lt_irrefl _ (Nat.lt_of_lt_of_le early late)

end Xv6.Sched
