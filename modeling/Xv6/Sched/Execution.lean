import Xv6.Sched.Locks

namespace Xv6.Sched

open Xv6.Data Xv6.Transition

/-! # One CPU for each running process

A CPU claims the process whose kernel stack it uses, and from the moment the scheduler
marks it RUNNING.  The state of a claimed process follows from the code of the CPU; the
claim ends in `swtch`, under the lock, with everything saved.
-/

variable {cpus procs : Nat}

/-! ## Claims -/

def Code.claim : Code procs → Option (Fin procs)
  | .thread self _ => some self
  | .scheduler (.mark process) | .scheduler (.swtch process) => some process
  | _ => none

def Thread.state : Thread procs → ProcState
  | .run pc => pc.state
  | .yieldSched _ => .runnable
  | _ => .running

/-- The state of the claimed process. -/
def Code.state : Code procs → ProcState
  | .thread _ code => code.state
  | _ => .running

/-- `c->proc` -/
def Code.current : Code procs → Option (Fin procs)
  | .thread self _ => some self
  | .scheduler (.swtch process) | .scheduler (.back process) => some process
  | _ => none

/-! ## Where a process is -/

/-- The point that the code leads to. -/
def Pc.goal : Pc procs → Point procs
  | .point place => place
  | .acquire _ next | .release _ next => next.goal

def Thread.goal : Thread procs → Point procs
  | .run pc | .yieldLock pc | .yieldMark pc | .yieldSched pc | .yieldBack pc => pc.goal

/-- A process is on the way to a point, on a CPU or preempted. -/
def At (state : State cpus procs) (self : Fin procs) (point : Point procs) : Prop :=
  (∃ cpu thread, (state.cpu cpu).code = .thread self thread ∧ thread.goal = point) ∨
    ∃ pc, (state.proc self).stopped = some (.yield pc) ∧ pc.goal = point

/-- The child that `fork` is making, and whether it can already be resumed. -/
def Point.child : Point procs → Option (Fin procs × Bool)
  | .forkInit process => some (process, false)
  | .forkParent process | .forkReady process => some (process, true)
  | _ => none

/-- A scheduler is about to switch to a process. -/
def Marked (state : State cpus procs) (process : Fin procs) : Prop :=
  ∃ cpu, (state.cpu cpu).code = .scheduler (.mark process) ∨
    (state.cpu cpu).code = .scheduler (.swtch process)

/-- `swtch` may load the context of a process, now or when it runs again. -/
def Resumable (state : State cpus procs) (process : Fin procs) : Prop :=
  (state.proc process).state = .runnable ∨ (state.proc process).state = .sleeping ∨
    Marked state process

/-! ## The invariant -/

structure Exec (state : State cpus procs) : Prop where
  claimed : ∀ cpu process, (state.cpu cpu).code.claim = some process →
    (state.proc process).state = (state.cpu cpu).code.state
  unique : ∀ cpu other process, (state.cpu cpu).code.claim = some process →
    (state.cpu other).code.claim = some process → cpu = other
  running : ∀ process, (state.proc process).state = .running →
    ∃ cpu, (state.cpu cpu).code.claim = some process
  current : ∀ cpu, (state.cpu cpu).proc = (state.cpu cpu).code.current
  active : ∀ cpu self thread, (state.cpu cpu).code = .thread self thread →
    (state.proc self).stopped = none
  saved : ∀ process, Resumable state process →
    (∀ cpu thread, (state.cpu cpu).code ≠ .thread process thread) →
    (state.proc process).stopped = some (state.proc process).context
  forked : ∀ self point child ready, At state self point → point.child = some (child, ready) →
    (state.proc child).state = .used ∧
      (ready = true → (state.proc child).stopped = some (state.proc child).context)
  forker : ∀ self other point point' child ready ready', At state self point →
    At state other point' → point.child = some (child, ready) →
    point'.child = some (child, ready') → self = other

variable {state : State cpus procs} {cpu other : Fin cpus} {effect : Effect cpus procs}
  {process self : Fin procs}

/-! ## Facts about code -/

/-- A process that has given up its claim to run still has its lock. -/
theorem Pc.leaving_locked {pc : Pc procs} (leaving : pc.state ≠ .running) :
    pc.plock (some self) = some self := by
  induction pc with
  | point place =>
    cases place with
    | sched => rfl
    | _ => contradiction
  | acquire lock next ih | release lock next ih =>
    cases lock with
    | proc => contradiction
    | spin => exact ih leaving

variable {code : Code procs}

theorem Code.leaving_locked (claims : code.claim = some process) (leaving : code.state ≠ .running) :
    code.plock = some process := by
  cases code with
  | scheduler | handler => contradiction
  | thread self thread =>
    cases claims
    cases thread with
    | run pc => exact Pc.leaving_locked leaving
    | yieldSched => rfl
    | _ => contradiction

/-- A claim that is not yet or no longer a stack in use has the lock. -/
theorem Code.claim_cases (claims : code.claim = some process) :
    (∃ thread, code = .thread process thread) ∨ code = .scheduler (.mark process) ∨
      code = .scheduler (.swtch process) := by
  cases code with
  | scheduler place =>
    cases place <;> cases claims
    · exact .inr (.inl rfl)
    · exact .inr (.inr rfl)
  | handler => contradiction
  | thread self thread =>
    cases claims
    exact .inl ⟨thread, rfl⟩

theorem Point.state_cases (point : Point procs) : point.state = .running ∨
    point.state = .sleeping ∨ point.state = .zombie := by
  cases point with
  | sched leaving =>
    cases leaving
    · exact .inr (.inl rfl)
    · exact .inr (.inr rfl)
  | _ => exact .inl rfl

theorem Pc.state_cases (pc : Pc procs) : pc.state = .running ∨ pc.state = .sleeping ∨
    pc.state = .zombie := by
  induction pc with
  | point place => exact place.state_cases
  | acquire lock next ih | release lock next ih =>
    cases lock with
    | proc => exact .inl rfl
    | spin => exact ih

theorem Code.state_alive (code : Code procs) : code.state ≠ .used ∧ code.state ≠ .unused := by
  cases code with
  | scheduler | handler => exact ⟨nofun, nofun⟩
  | thread self thread =>
    cases thread with
    | run pc =>
      rw [Code.state, Thread.state]
      obtain state | state | state := pc.state_cases <;> rw [state] <;> exact ⟨nofun, nofun⟩
    | _ => exact ⟨nofun, nofun⟩

/-! ## What a step does to claims -/

inductive ClaimMove (state : State cpus procs) (cpu : Fin cpus) (effect : Effect cpus procs) :
    Prop where
  | same (claim : effect.cpu.code.claim = (state.cpu cpu).code.claim)
  | taken (process : Fin procs) (before : (state.cpu cpu).code = .scheduler (.test process))
      (after : effect.cpu.code = .scheduler (.mark process))
      (write : effect.write = some (process, .run))
      (runnable : (state.proc process).state = .runnable)
  | left (self : Fin procs) (thread : Thread procs) (context : Context procs)
      (before : (state.cpu cpu).code = .thread self thread) (scheds : Scheds self thread context)
      (after : effect.cpu.code = .scheduler (.back self))
      (write : effect.write = some (self, .save context))
      (held : (state.proc self).lock = some cpu) (marked : (state.proc self).state ≠ .running)

theorem Transition.claimMove (locks : Locks state) (transition : Acts state cpu effect) :
    ClaimMove state cpu effect := by
  have context := locks.context cpu
  obtain ⟨code, here, transition⟩ := transition.code
  rw [here] at context
  cases transition with
  | stop => exact .same rfl
  | acquireProc acquires
  | acquireSpin acquires => exact .same (by rw [here]; cases acquires <;> rfl)
  | releaseProc releases
  | releaseSpin releases => exact .same (by rw [here]; cases releases <;> rfl)
  | run runnable => exact .taken _ here rfl rfl runnable
  | sched scheds held marked saved =>
    have same := saved.symm.trans (context _ _ rfl)
    cases same
    exact .left _ _ _ here scheds rfl rfl held marked
  | _ => exact .same (by rw [here]; rfl)

theorem apply_proc_of_ne {write : Write cpus procs} {target : Fin procs}
    (written : effect.write = some (target, write)) (different : process ≠ target) :
    (apply state cpu effect).proc process = state.proc process := by
  rw [apply_proc_some written, overwrite_of_ne different]

theorem apply_proc_self {write : Write cpus procs}
    (written : effect.write = some (process, write)) :
    (apply state cpu effect).proc process = write.apply state (state.proc process) := by
  rw [apply_proc_some written, overwrite_self]

/-- `kill` wakes the process if it sleeps. -/
@[elab_as_elim]
theorem Write.kill_cases {motive : Proc cpus procs → Prop} {proc : Proc cpus procs}
    (sleeping : proc.state = .sleeping →
      motive { proc with killed := true, state := .runnable, asleep := none })
    (awake : proc.state ≠ .sleeping → motive { proc with killed := true }) :
    motive (Write.apply state proc .kill) := by
  by_cases asleep : proc.state = .sleeping
  · simpa only [Write.apply, if_pos asleep] using sleeping asleep
  · simpa only [Write.apply, if_neg asleep] using awake asleep

/-- What holds of the record of a process after a step: either it was written, or it is the
same. -/
theorem apply_proc_cases (property : Proc cpus procs → Prop)
    (written : ∀ write, effect.write = some (process, write) →
      property (write.apply state (state.proc process)))
    (same : (∀ write, effect.write ≠ some (process, write)) → property (state.proc process)) :
    property ((apply state cpu effect).proc process) := by
  cases target : effect.write with
  | none =>
    rw [apply_proc_none target]
    exact same fun write found => by rw [target] at found; contradiction
  | some change =>
    obtain ⟨who, write⟩ := change
    by_cases mine : process = who
    · subst mine
      rw [apply_proc_self target]
      exact written write target
    · rw [apply_proc_of_ne target mine]
      refine same fun write found => mine ?_
      rw [target] at found
      cases found
      rfl

theorem Moves.own_state {point : Point procs} {pc : Pc procs} {change : Change cpus procs}
    (exec : Exec state) (here : (state.cpu cpu).code = .thread self (.run (.point point)))
    (moves : Moves state cpu self point pc change) :
    ((apply state cpu (change.effect state cpu self pc)).proc self).state = pc.state := by
  have now : (state.proc self).state = point.state := by
    have claimed := exec.claimed cpu self (by rw [here]; rfl)
    rwa [here] at claimed
  refine apply_proc_cases (fun proc => proc.state = pc.state) (fun write written => ?_) fun none => ?_
  · have child : ∀ ready, point.child = some (self, ready) → False := by
      intro ready found
      have used := (exec.forked self point self ready (.inl ⟨cpu, _, here, rfl⟩) found).1
      rw [now] at used
      cases point <;> contradiction
    cases moves with
    | sleepBegin | sleepBack | forkParent | reparentHit =>
      cases written
      exact now
    | sleepMark | exitMark =>
      cases written
      rfl
    | wakeupHit _ sleeping =>
      cases written
      rw [now] at sleeping
      contradiction
    | killHit =>
      cases written
      simp only [Write.apply, now]
      rfl
    | forkAlloc unused =>
      cases written
      rw [now] at unused
      contradiction
    | forkSetup | forkFail | forkReady =>
      cases written
      exact (child _ rfl).elim
    | waitReap zombie =>
      cases written
      rw [now] at zombie
      contradiction
    | _ => cases written
  · cases moves with
    | sleepMark | exitMark => exact absurd rfl (none _)
    | wakeupEnd wakeup => cases wakeup.caller <;> exact now
    | _ => exact now

variable {next : Code procs} {lock : Lock procs}

theorem Acquires.claim (acquires : Acquires code lock next) : next.claim = code.claim := by
  cases acquires <;> rfl

theorem Releases.claim (releases : Releases code lock next) : next.claim = code.claim := by
  cases releases <;> rfl

theorem Acquires.same_state (acquires : Acquires code lock next) (wf : code.Wf) :
    next.state = code.state := by
  cases acquires with
  | run self lock next =>
    cases lock with
    | proc => exact wf.2.1
    | spin => rfl
  | _ => rfl

theorem Releases.same_state (releases : Releases code lock next) (wf : code.Wf) :
    next.state = code.state := by
  cases releases with
  | run self lock next =>
    cases lock with
    | proc => exact wf.2.1
    | spin => rfl
  | yield => exact wf.2.2.2
  | _ => rfl

variable {thread : Thread procs}

theorem load_state {context : Context procs} (loaded : load self context = some thread) :
    thread.state = .running := by
  cases context <;> cases loaded <;> rfl

/-- Locks and parents are no part of the state. -/
theorem state_of_lock_write
    (written : ∀ write, effect.write = some (process, write) → write.plain = false) :
    ((apply state cpu effect).proc process).state = (state.proc process).state := by
  refine apply_proc_cases (fun proc => proc.state = (state.proc process).state)
    (fun write found => ?_) fun _ => rfl
  have outside := written write found
  cases write <;> first | rfl | contradiction

theorem state_of_no_write (written : effect.write = none) :
    ((apply state cpu effect).proc process).state = (state.proc process).state := by
  rw [apply_proc_none written]

theorem Transition.own_state (locks : Locks state) (exec : Exec state)
    (transition : Acts state cpu effect) (claims : effect.cpu.code.claim = some process) :
    ((apply state cpu effect).proc process).state = effect.cpu.code.state := by
  have wf := locks.wf cpu
  have claimed := exec.claimed cpu
  obtain ⟨code, here, transition⟩ := transition.code
  rw [here] at wf claimed
  cases transition with
  | stop =>
    have mine := claimed process (here ▸ claims)
    rw [← here] at mine
    exact (state_of_no_write rfl).trans mine
  | acquireProc acquires =>
    rw [acquires.claim] at claims
    rw [acquires.same_state wf, ← claimed process claims]
    exact state_of_lock_write fun write found => by cases found; rfl
  | acquireSpin acquires =>
    rw [acquires.claim] at claims
    rw [acquires.same_state wf, ← claimed process claims]
    exact state_of_no_write rfl
  | releaseProc releases =>
    rw [releases.claim] at claims
    rw [releases.same_state wf, ← claimed process claims]
    exact state_of_lock_write fun write found => by cases found; rfl
  | releaseSpin releases =>
    rw [releases.claim] at claims
    rw [releases.same_state wf, ← claimed process claims]
    exact state_of_no_write rfl
  | moves moves =>
    cases claims
    exact moves.own_state exec here
  | calls calls =>
    cases claims
    have mine := claimed _ rfl
    cases calls <;> exact (state_of_no_write rfl).trans mine
  | preempt _ running =>
    cases claims
    exact (state_of_no_write rfl).trans running
  | yield | run =>
    cases claims
    rw [apply_proc_self rfl]
    rfl
  | mark => exact (state_of_no_write rfl).trans (claimed process claims)
  | swtch loaded =>
    cases claims
    rw [apply_proc_self rfl]
    exact (claimed _ rfl).trans (load_state loaded).symm
  | _ => contradiction

/-- A process that is being made does not run. -/
theorem Exec.child_used (exec : Exec state) {point : Point procs} {ready : Bool}
    (here : (state.cpu cpu).code = .thread self (.run (.point point)))
    (found : point.child = some (process, ready)) : (state.proc process).state = .used :=
  (exec.forked self point process ready (.inl ⟨cpu, _, here, rfl⟩) found).1

/-- Nobody else takes a running process off its CPU. -/
theorem Transition.running_kept (exec : Exec state) (transition : Acts state cpu effect)
    (running : (state.proc process).state = .running)
    (other : ∀ thread, (state.cpu cpu).code ≠ .thread process thread) :
    ((apply state cpu effect).proc process).state = .running := by
  refine apply_proc_cases (fun proc => proc.state = .running) (fun write written => ?_)
    fun _ => running
  obtain ⟨code, next, here, _, writes⟩ := transition.wrote written
  rw [here] at other
  have impossible : ∀ {other : ProcState}, (state.proc process).state = other →
      other ≠ .running → (write.apply state (state.proc process)).state = .running :=
    fun same different => absurd (same.symm.trans running) different
  cases writes with
  | acquire | release | resume | adopt | reparent => exact running
  | wakeup _ sleeping => exact impossible sleeping nofun
  | kill =>
    simp only [Write.apply, running]
    rfl
  | run => rfl
  | yield | fallAsleep | sleep | tidy | save | exit => exact absurd rfl (other _)
  | alloc unused => exact impossible unused nofun
  | setup | free | ready => exact impossible (exec.child_used here rfl) nofun
  | reap zombie => exact impossible zombie nofun

section

variable (transition : Acts state cpu effect)

include transition

/-- A CPU gets to the kernel stack of a process by `swtch` only. -/
theorem Transition.thread_cases (there : effect.cpu.code = .thread self thread) :
    (∃ before, (state.cpu cpu).code = .thread self before) ∨
      (state.cpu cpu).code = .scheduler (.swtch self) ∧ effect.write = some (self, .resume) ∧
        load self (state.proc self).context = some thread := by
  obtain ⟨code, here, transition⟩ := transition.code
  rw [here]
  cases transition with
  | stop => exact .inl ⟨thread, here.symm.trans there⟩
  | acquireProc acquires | acquireSpin acquires => exact .inl (acquires.self there)
  | releaseProc releases | releaseSpin releases => exact .inl (releases.self there)
  | moves | calls | preempt | yield => cases there; exact .inl ⟨_, rfl⟩
  | swtch loaded => cases there; exact .inr ⟨rfl, rfl, loaded⟩
  | _ => contradiction

/-- And leaves it by `sched`. -/
theorem Transition.thread_kept (here : (state.cpu cpu).code = .thread self thread) :
    (∃ after, effect.cpu.code = .thread self after) ∨
      ∃ context, effect.write = some (self, .save context) ∧ Scheds self thread context := by
  rw [Acts, here] at transition
  cases transition with
  | stop => exact .inl ⟨thread, here⟩
  | acquireProc acquires => cases acquires <;> exact .inl ⟨_, rfl⟩
  | acquireSpin acquires => cases acquires; exact .inl ⟨_, rfl⟩
  | releaseProc releases => cases releases <;> exact .inl ⟨_, rfl⟩
  | releaseSpin releases => cases releases; exact .inl ⟨_, rfl⟩
  | sched scheds => exact .inr ⟨_, rfl, scheds⟩
  | _ => exact .inl ⟨_, rfl⟩

theorem Transition.save_cases {context : Context procs}
    (written : effect.write = some (process, .save context)) :
    ∃ thread back, (state.cpu cpu).code = .thread process thread ∧
      Scheds process thread context ∧ effect.cpu.code = .scheduler (.back back) := by
  obtain ⟨code, next, here, there, writes⟩ := transition.wrote written
  cases writes with
  | save back scheds => exact ⟨_, back, here, scheds, there⟩

end

/-- The context of a process that uses its stack is saved by `sched` only. -/
theorem Transition.stopped_kept (exec : Exec state) (transition : Acts state cpu effect)
    (claims : (state.cpu other).code.claim = some process)
    (active : (state.proc process).stopped = none) :
    ((apply state cpu effect).proc process).stopped = none ∨
      ∃ context, effect.write = some (process, .save context) := by
  refine apply_proc_cases (fun proc => proc.stopped = none ∨
    ∃ context, effect.write = some (process, .save context)) (fun write written => ?_)
    fun _ => .inl active
  obtain ⟨code, next, here, _, writes⟩ := transition.wrote written
  cases writes with
  | save => exact .inr ⟨_, written⟩
  | setup =>
    have used := exec.child_used here rfl
    rw [exec.claimed other process claims] at used
    exact absurd used (Code.state_alive _).1
  | resume | free | reap => exact .inl rfl
  | _ => exact .inl active

/-- A process off its stack was off it before, or is saved now. -/
theorem Transition.off_stack (transition : Acts state cpu effect)
    (off : ∀ other thread, ((apply state cpu effect).cpu other).code ≠ .thread process thread) :
    (∀ other thread, (state.cpu other).code ≠ .thread process thread) ∨
      ∃ context, effect.write = some (process, .save context) := by
  by_cases on : ∃ thread, (state.cpu cpu).code = .thread process thread
  · obtain ⟨thread, here⟩ := on
    cases transition.thread_kept here with
    | inl still =>
      obtain ⟨after, there⟩ := still
      refine absurd ?_ (off cpu after)
      rw [apply_cpu, overwrite_self, there]
    | inr save =>
      obtain ⟨context, written, _⟩ := save
      exact .inr ⟨context, written⟩
  · refine .inl fun other thread here => ?_
    cases Decidable.eq_or_ne other cpu with
    | inl same => exact on ⟨thread, same ▸ here⟩
    | inr different =>
      refine absurd ?_ (off other thread)
      rw [apply_cpu, overwrite_of_ne different, here]

/-- The scheduler takes a process that is RUNNABLE. -/
theorem Transition.marked_cases (transition : Acts state cpu effect)
    (marked : effect.cpu.code = .scheduler (.mark process) ∨
      effect.cpu.code = .scheduler (.swtch process)) :
    (state.proc process).state = .runnable ∨
      ((state.cpu cpu).code = .scheduler (.mark process) ∨
        (state.cpu cpu).code = .scheduler (.swtch process)) := by
  obtain ⟨code, here, transition⟩ := transition.code
  cases transition with
  | stop => exact .inr (here ▸ marked)
  | acquireProc acquires | acquireSpin acquires => cases acquires <;> obtain ⟨⟨⟩⟩ | ⟨⟨⟩⟩ := marked
  | releaseProc releases | releaseSpin releases => cases releases <;> obtain ⟨⟨⟩⟩ | ⟨⟨⟩⟩ := marked
  | run runnable =>
    obtain ⟨⟨⟩⟩ | ⟨⟨⟩⟩ := marked
    exact .inl runnable
  | mark =>
    obtain ⟨⟨⟩⟩ | ⟨⟨⟩⟩ := marked
    exact .inr (.inl here)
  | _ => obtain ⟨⟨⟩⟩ | ⟨⟨⟩⟩ := marked

end Xv6.Sched
