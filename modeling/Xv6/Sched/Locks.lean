import Xv6.Data.Holding
import Xv6.Sched.Transitions

namespace Xv6.Sched

open Xv6.Data Xv6.Transition

/-! # Who holds which lock

What a CPU will do next says which locks it holds: at most one `p->lock` and at most one
other spin lock.  The fields of a process are written only under its lock, its parent under
`wait_lock`.
-/

variable {cpus procs : Nat}

/-! ## The locks held at a place in the code -/

def Caller.lock : Caller procs → Option Spinlock
  | .idle => none
  | .held lock | .handler lock => some (.other lock)
  | .reparent _ _ | .exit _ _ => some .wait
  | .releasesleep sleeplock => some (.inner sleeplock)

def Point.plock (self : Option (Fin procs)) : Point procs → Option (Fin procs)
  | .sleepBegin _ | .sleepMark _ | .sched _ | .back _ | .exitMark _ => self
  | .wakeupTest _ process | .killTest _ process | .forkTest process | .forkInit process
  | .forkReady process | .waitTest process => some process
  | _ => none

def Point.spin : Point procs → Option Spinlock
  | .held lock | .handlerWakeup lock _ => some (.other lock)
  | .sleepBegin sleep => some sleep.lock
  | .wakeup call _ | .wakeupTest call _ => call.caller.lock
  | .forkParent _ | .reparent _ _ | .exitMark _ | .waitScan _ _ | .waitTest _ | .waitCheck _ =>
    some .wait
  | .acquiresleepTest sleeplock | .releasesleepClear sleeplock => some (.inner sleeplock)
  | _ => none

/-- Where `wakeup` returns to is in the process that called it. -/
def Point.Wf (self : Option (Fin procs)) : Point procs → Prop
  | .wakeup ⟨_, .exit process _, _⟩ _ | .wakeupTest ⟨_, .exit process _, _⟩ _ => self = some process
  | _ => True

/-- The state of a process at a point of its code. -/
def Point.state : Point procs → ProcState
  | .sched (.sleep _) => .sleeping
  | .sched .exit => .zombie
  | _ => .running

def Pc.plock (self : Option (Fin procs)) : Pc procs → Option (Fin procs)
  | .point place => place.plock self
  | .acquire (.proc _) _ => none
  | .release (.proc process) _ => some process
  | .acquire (.spin _) next | .release (.spin _) next => next.plock self

def Pc.spin : Pc procs → Option Spinlock
  | .point place => place.spin
  | .acquire (.spin _) _ => none
  | .release (.spin lock) _ => some lock
  | .acquire (.proc _) next | .release (.proc _) next => next.spin

def Pc.state : Pc procs → ProcState
  | .point place => place.state
  | .acquire (.proc _) _ | .release (.proc _) _ => .running
  | .acquire (.spin _) next | .release (.spin _) next => next.state

/-- The locks taken and given up are those that the rest of the code needs.  Only a running
process deals with the lock of a process. -/
def Pc.Wf (self : Option (Fin procs)) : Pc procs → Prop
  | .point place => place.Wf self
  | .acquire (.proc process) next =>
    next.plock self = some process ∧ next.state = .running ∧ next.Wf self
  | .release (.proc _) next => next.plock self = none ∧ next.state = .running ∧ next.Wf self
  | .acquire (.spin lock) next => next.spin = some lock ∧ next.Wf self
  | .release (.spin _) next => next.spin = none ∧ next.Wf self

/-- A place where a process may be interrupted. -/
def Pc.Open (self : Fin procs) (pc : Pc procs) : Prop :=
  pc.Wf (some self) ∧ pc.plock (some self) = none ∧ pc.spin = none ∧ pc.state = .running

def Thread.plock (self : Fin procs) : Thread procs → Option (Fin procs)
  | .run pc => pc.plock (some self)
  | .yieldLock _ => none
  | .yieldMark _ | .yieldSched _ | .yieldBack _ => some self

def Thread.spin : Thread procs → Option Spinlock
  | .run pc => pc.spin
  | _ => none

def Thread.Wf (self : Fin procs) : Thread procs → Prop
  | .run pc => pc.Wf (some self)
  | .yieldLock resume | .yieldMark resume | .yieldSched resume | .yieldBack resume =>
    resume.Open self

def Context.Wf (self : Fin procs) : Context procs → Prop
  | .yield resume => resume.Open self
  | _ => True

def Scheduler.plock : Scheduler procs → Option (Fin procs)
  | .loop _ => none
  | .test process | .mark process | .swtch process | .back process | .unlock process =>
    some process

def Code.plock : Code procs → Option (Fin procs)
  | .scheduler place => place.plock
  | .handler _ pc => pc.plock none
  | .thread self code => code.plock self

def Code.spin : Code procs → Option Spinlock
  | .scheduler _ => none
  | .handler _ pc => pc.spin
  | .thread _ code => code.spin

def Code.Wf : Code procs → Prop
  | .scheduler _ => True
  | .handler _ pc => pc.Wf none
  | .thread self code => code.Wf self

/-- How many locks are held. -/
def Code.locks (code : Code procs) : Nat := code.plock.toList.length + code.spin.toList.length

/-! ## The invariant -/

structure Locks (state : State cpus procs) : Prop where
  proc : Holding (fun process => (state.proc process).lock) fun cpu => (state.cpu cpu).code.plock
  spin : Holding state.spin fun cpu => (state.cpu cpu).code.spin
  wf : ∀ cpu, (state.cpu cpu).code.Wf
  noff : ∀ cpu, (state.cpu cpu).noff = (state.cpu cpu).code.locks
  context : ∀ cpu self thread, (state.cpu cpu).code = .thread self thread →
    (state.cpu cpu).context = some self
  saved : ∀ process, (state.proc process).context.Wf process

/-- What happens under the lock of the process it happens to. -/
def Write.plain : Write cpus procs → Bool
  | .acquire _ | .release | .parent _ => false
  | _ => true

section

variable (state : State cpus procs) (cpu : Fin cpus) (effect : Effect cpus procs)

inductive ProcMove : Prop where
  | none (write : effect.write = none)
      (same : effect.cpu.code.plock = (state.cpu cpu).code.plock)
  | acquire (process : Fin procs) (write : effect.write = some (process, .acquire cpu))
      (free : (state.proc process).lock = Option.none)
      (before : (state.cpu cpu).code.plock = Option.none)
      (after : effect.cpu.code.plock = some process)
  | release (process : Fin procs) (write : effect.write = some (process, .release))
      (before : (state.cpu cpu).code.plock = some process)
      (after : effect.cpu.code.plock = Option.none)
  | parent (process other : Fin procs) (write : effect.write = some (process, .parent other))
      (same : effect.cpu.code.plock = (state.cpu cpu).code.plock)
      (wait : (state.cpu cpu).code.spin = some .wait)
  | plain (process : Fin procs) (change : Write cpus procs)
      (write : effect.write = some (process, change)) (isPlain : change.plain = true)
      (before : (state.cpu cpu).code.plock = some process)
      (after : effect.cpu.code.plock = some process)

inductive SpinMove : Prop where
  | none (write : effect.spin = none)
      (same : effect.cpu.code.spin = (state.cpu cpu).code.spin)
  | acquire (lock : Spinlock) (write : effect.spin = some (lock, some cpu))
      (free : state.spin lock = Option.none)
      (before : (state.cpu cpu).code.spin = Option.none)
      (after : effect.cpu.code.spin = some lock)
  | release (lock : Spinlock) (write : effect.spin = some (lock, Option.none))
      (before : (state.cpu cpu).code.spin = some lock)
      (after : effect.cpu.code.spin = Option.none)

structure LockStep : Prop where
  wf : effect.cpu.code.Wf
  noff : effect.cpu.noff = effect.cpu.code.locks
  context : ∀ self thread, effect.cpu.code = .thread self thread →
    effect.cpu.context = some self
  saved : ∀ process context, effect.write = some (process, .save context) → context.Wf process
  proc : ProcMove state cpu effect
  spin : SpinMove state cpu effect

end

variable {state : State cpus procs} {cpu : Fin cpus} {effect : Effect cpus procs}

/-! ## Lock steps keep the invariant -/

theorem apply_cpu : (apply state cpu effect).cpu = overwrite state.cpu cpu effect.cpu := rfl

theorem apply_proc_none (write : effect.write = none) :
    (apply state cpu effect).proc = state.proc := by
  simp only [apply, write]

variable {process : Fin procs}

theorem apply_proc_some {write : Write cpus procs}
    (written : effect.write = some (process, write)) :
    (apply state cpu effect).proc =
      overwrite state.proc process (write.apply state (state.proc process)) := by
  simp only [apply, written]

theorem Write.lock_of_plain {write : Write cpus procs} (isPlain : write.plain = true)
    (proc : Proc cpus procs) : (write.apply state proc).lock = proc.lock := by
  cases write <;> first | rfl | contradiction

theorem Write.context_wf {write : Write cpus procs} (proc : Proc cpus procs)
    (before : proc.context.Wf process)
    (saved : ∀ context, write = .save context → context.Wf process) :
    (write.apply state proc).context.Wf process := by
  cases write with
  | save context => exact saved context rfl
  | setup => trivial
  | _ => exact before

theorem LockStep.holding_proc (step : LockStep state cpu effect) (locks : Locks state) :
    Holding (fun process => ((apply state cpu effect).proc process).lock)
      fun other => ((apply state cpu effect).cpu other).code.plock := by
  have held : ∀ key, effect.cpu.code.plock = key → ∀ other,
      (overwrite state.cpu cpu effect.cpu other).code.plock =
        overwrite (fun other => (state.cpu other).code.plock) cpu key other := by
    intro key code other
    unfold overwrite
    split
    · exact code
    · rfl
  have heldSame : effect.cpu.code.plock = (state.cpu cpu).code.plock → ∀ other,
      (overwrite state.cpu cpu effect.cpu other).code.plock = (state.cpu other).code.plock :=
    fun same => overwrite_congr (fun entry : Cpu procs => entry.code.plock) same
  cases step.proc with
  | none write same =>
    rw [apply_proc_none write]
    exact locks.proc.congr (fun _ => rfl) (heldSame same)
  | acquire process write free before after =>
    rw [apply_proc_some write]
    refine locks.proc.acquire free before (fun other => ?_) (held _ after)
    unfold overwrite
    split <;> rfl
  | release process write before after =>
    rw [apply_proc_some write]
    refine locks.proc.release before (fun other => ?_) (held _ after)
    unfold overwrite
    split <;> rfl
  | parent process other write same _ =>
    rw [apply_proc_some write]
    exact locks.proc.congr (overwrite_congr Proc.lock rfl) (heldSame same)
  | plain process change write isPlain before after =>
    rw [apply_proc_some write]
    exact locks.proc.congr (overwrite_congr Proc.lock (Write.lock_of_plain isPlain _))
      (heldSame (after.trans before.symm))

theorem LockStep.holding_spin (step : LockStep state cpu effect) (locks : Locks state) :
    Holding (apply state cpu effect).spin
      fun other => ((apply state cpu effect).cpu other).code.spin := by
  have held : ∀ key, effect.cpu.code.spin = key → ∀ other,
      (overwrite state.cpu cpu effect.cpu other).code.spin =
        overwrite (fun other => (state.cpu other).code.spin) cpu key other := by
    intro key code other
    unfold overwrite
    split
    · exact code
    · rfl
  cases step.spin with
  | none write same =>
    refine locks.spin.congr (fun _ => by simp only [apply, write]) ?_
    exact overwrite_congr (fun entry : Cpu procs => entry.code.spin) same
  | acquire lock write free before after =>
    exact locks.spin.acquire free before (fun _ => by simp only [apply, write]) (held _ after)
  | release lock write before after =>
    exact locks.spin.release before (fun _ => by simp only [apply, write]) (held _ after)

theorem LockStep.locks (step : LockStep state cpu effect) (locks : Locks state) :
    Locks (apply state cpu effect) := by
  constructor
  · exact step.holding_proc locks
  · exact step.holding_spin locks
  · exact overwrite_rec (p := fun _ (entry : Cpu procs) => entry.code.Wf) step.wf fun other _ => locks.wf other
  · exact overwrite_rec (p := fun _ (entry : Cpu procs) => entry.noff = entry.code.locks) step.noff
      fun other _ => locks.noff other
  · exact overwrite_rec (p := fun _ (entry : Cpu procs) => ∀ self thread, entry.code = .thread self thread →
      entry.context = some self) step.context fun other _ => locks.context other
  · cases written : effect.write with
    | none =>
      rw [apply_proc_none written]
      exact locks.saved
    | some change =>
      obtain ⟨process, write⟩ := change
      rw [apply_proc_some written]
      refine overwrite_rec (p := fun process (entry : Proc cpus procs) => entry.context.Wf process) ?_
        fun other _ => locks.saved other
      refine Write.context_wf _ (locks.saved process) fun context same => ?_
      exact step.saved process context (same ▸ written)

/-! ## Every step is a lock step -/

theorem Locks.stop (locks : Locks state) (reason : Panic) :
    LockStep state cpu (stop state cpu reason) :=
  ⟨locks.wf cpu, locks.noff cpu, locks.context cpu, nofun, .none rfl rfl, .none rfl rfl⟩

theorem Locks.keep (locks : Locks state) (noff : effect.cpu.noff = (state.cpu cpu).noff)
    (wf : effect.cpu.code.Wf) (plock : effect.cpu.code.plock = (state.cpu cpu).code.plock)
    (spin : effect.cpu.code.spin = (state.cpu cpu).code.spin)
    (context : ∀ self thread, effect.cpu.code = .thread self thread → effect.cpu.context =
      some self)
    (saved : ∀ process context, effect.write = some (process, .save context) → context.Wf process)
    (noSpin : effect.spin = none)
    (write : ∀ process change, effect.write = some (process, change) → change.plain = true ∧
      (state.cpu cpu).code.plock = some process ∨ (∃ other, change = .parent other) ∧
      (state.cpu cpu).code.spin = some .wait) :
    LockStep state cpu effect := by
  refine ⟨wf, ?_, context, saved, ?_, .none noSpin spin⟩
  · rw [noff, locks.noff, Code.locks, Code.locks, plock, spin]
  · cases written : effect.write with
    | none => exact .none written plock
    | some target =>
      obtain ⟨process, change⟩ := target
      cases write process change written with
      | inl mine => exact .plain process change written mine.1 mine.2 (plock.trans mine.2)
      | inr wait =>
        obtain ⟨⟨other, rfl⟩, wait⟩ := wait
        exact .parent process other written plock wait

/-! ### Well-formed code -/

section

variable {self : Option (Fin procs)} {wakeup : Wakeup procs} {index : Nat}

theorem after_wf (wf : (Point.wakeup wakeup index).Wf self) : wakeup.caller.after.Wf self := by
  obtain ⟨chan, caller, clock⟩ := wakeup
  cases caller with
  | exit process status => exact ⟨wf, rfl, trivial⟩
  | releasesleep sleeplock | handler lock => exact ⟨rfl, trivial⟩
  | _ => trivial

theorem Caller.after_plock (caller : Caller procs) : caller.after.plock self = none := by
  cases caller <;> rfl

theorem Caller.after_spin (caller : Caller procs) : caller.after.spin = caller.lock := by
  cases caller <;> rfl

theorem wakeup_wf {other : Nat} (wf : (Point.wakeup wakeup index).Wf self) :
    (Point.wakeup wakeup other).Wf self := by
  obtain ⟨chan, caller, clock⟩ := wakeup
  cases caller <;> exact wf

theorem wakeupTest_wf {process : Fin procs} :
    (Point.wakeupTest wakeup process).Wf self ↔ (Point.wakeup wakeup index).Wf self := by
  obtain ⟨chan, caller, clock⟩ := wakeup
  cases caller <;> exact Iff.rfl

end

/-- The code a process goes on with holds the same locks. -/
structure SameLocks (owner : Option (Fin procs)) (before after : Pc procs) : Prop where
  wf : after.Wf owner
  plock : after.plock owner = before.plock owner
  spin : after.spin = before.spin

variable {point : Point procs} {pc : Pc procs}

theorem Moves.sameLocks {self : Fin procs} {change : Change cpus procs}
    (moves : Moves state cpu self point pc change) (wf : point.Wf (some self)) :
    SameLocks (some self) (.point point) pc := by
  cases moves with
  | sleepBack sleep => cases sleep <;> exact ⟨⟨rfl, rfl, rfl, trivial⟩, rfl, rfl⟩
  | wakeupSkip => exact ⟨wakeup_wf wf, rfl, rfl⟩
  | wakeupLock => exact ⟨⟨rfl, rfl, wakeupTest_wf.mpr wf⟩, rfl, rfl⟩
  | wakeupEnd wakeup => exact ⟨after_wf wf, wakeup.caller.after_plock, wakeup.caller.after_spin⟩
  | wakeupHit | wakeupMiss => exact ⟨⟨rfl, rfl, wakeupTest_wf.mp wf⟩, rfl, rfl⟩
  | reparentEnd => exact ⟨rfl, rfl, rfl⟩
  | forkSetup | forkParent | waitReap | waitFault => exact ⟨⟨rfl, rfl, rfl, trivial⟩, rfl, rfl⟩
  | _ =>
    first
      | exact ⟨trivial, rfl, rfl⟩
      | exact ⟨⟨rfl, trivial⟩, rfl, rfl⟩
      | exact ⟨⟨rfl, rfl, trivial⟩, rfl, rfl⟩

theorem Calls.sameLocks {self : Fin procs} {change : Change cpus procs}
    (calls : Calls state self point pc change) :
    SameLocks (some self) (.point point) pc := by
  cases calls <;>
    first
      | exact ⟨trivial, rfl, rfl⟩
      | exact ⟨⟨rfl, trivial⟩, rfl, rfl⟩
      | exact ⟨⟨rfl, rfl, trivial⟩, rfl, rfl⟩

theorem Handles.sameLocks {next : Pc procs} {write : Option (Fin procs × Write cpus procs)}
    (handles : Handles state cpu pc next write) (wf : pc.Wf none) : SameLocks none pc next := by
  cases handles with
  | start => exact ⟨trivial, rfl, rfl⟩
  | skip => exact ⟨wakeup_wf wf, rfl, rfl⟩
  | lock => exact ⟨⟨rfl, rfl, wakeupTest_wf.mpr wf⟩, rfl, rfl⟩
  | finish wakeup => exact ⟨after_wf wf, wakeup.caller.after_plock, wakeup.caller.after_spin⟩
  | hit | miss => exact ⟨⟨rfl, rfl, wakeupTest_wf.mp wf⟩, rfl, rfl⟩

/-- Processes are written to under their locks. -/
theorem Moves.write {self : Fin procs} {change : Change cpus procs}
    (moves : Moves state cpu self point pc change) {write : Write cpus procs}
    (written : change.write = some (process, write)) :
    (∀ context, write ≠ .save context) ∧
      (write.plain = true ∧ point.plock (some self) = some process ∨
        (∃ other, write = .parent other) ∧ point.spin = some .wait) := by
  cases moves <;> cases written <;>
    first
      | exact ⟨nofun, .inl ⟨rfl, rfl⟩⟩
      | exact ⟨nofun, .inr ⟨⟨_, rfl⟩, rfl⟩⟩

variable {code next : Code procs}

theorem Acquires.proc (acquires : Acquires code (.proc process) next) (wf : code.Wf) :
    next.Wf ∧ code.plock = none ∧ next.plock = some process ∧ next.spin = code.spin := by
  cases acquires with
  | run | handler => exact ⟨wf.2.2, rfl, wf.1, rfl⟩
  | yield => exact ⟨wf, rfl, rfl, rfl⟩
  | loop => exact ⟨trivial, rfl, rfl, rfl⟩

theorem Acquires.spin {lock : Spinlock} (acquires : Acquires code (.spin lock) next)
    (wf : code.Wf) :
    next.Wf ∧ code.spin = none ∧ next.spin = some lock ∧ next.plock = code.plock := by
  cases acquires with
  | run | handler => exact ⟨wf.2, rfl, wf.1, rfl⟩

theorem Releases.proc (releases : Releases code (.proc process) next) (wf : code.Wf) :
    next.Wf ∧ code.plock = some process ∧ next.plock = none ∧ next.spin = code.spin := by
  cases releases with
  | run | handler => exact ⟨wf.2.2, rfl, wf.1, rfl⟩
  | yield => exact ⟨wf.1, rfl, wf.2.1, wf.2.2.1⟩
  | unlock => exact ⟨trivial, rfl, rfl, rfl⟩

theorem Releases.spin {lock : Spinlock} (releases : Releases code (.spin lock) next)
    (wf : code.Wf) :
    next.Wf ∧ code.spin = some lock ∧ next.spin = none ∧ next.plock = code.plock := by
  cases releases with
  | run | handler => exact ⟨wf.2, rfl, wf.1, rfl⟩

variable {thread : Thread procs}

theorem Acquires.self {lock : Lock procs} (acquires : Acquires code lock next) {self : Fin procs}
    (here : next = .thread self thread) : ∃ before, code = .thread self before := by
  cases acquires <;> cases here <;> exact ⟨_, rfl⟩

theorem Releases.self {lock : Lock procs} (releases : Releases code lock next) {self : Fin procs}
    (here : next = .thread self thread) : ∃ before, code = .thread self before := by
  cases releases <;> cases here <;> exact ⟨_, rfl⟩

theorem load_wf {self : Fin procs} {context : Context procs} (wf : context.Wf self)
    (loaded : load self context = some thread) :
    thread.Wf self ∧ thread.plock self = some self ∧ thread.spin = none := by
  cases context <;> cases loaded
  · exact ⟨⟨rfl, rfl, trivial⟩, rfl, rfl⟩
  · exact ⟨wf, rfl, rfl⟩
  · exact ⟨trivial, rfl, rfl⟩

theorem Pc.running_of_unlocked {self : Fin procs} (unlocked : pc.plock (some self) = none) :
    pc.state = .running := by
  induction pc with
  | point place =>
    cases place with
    | sched => contradiction
    | _ => rfl
  | acquire lock next ih | release lock next ih =>
    cases lock with
    | proc => rfl
    | spin => exact ih unlocked

/-- Interrupts are on only where no lock is held. -/
theorem Locks.unlocked (locks : Locks state) (noff : (state.cpu cpu).noff = 0) :
    (state.cpu cpu).code.plock = none ∧ (state.cpu cpu).code.spin = none := by
  rw [locks.noff, Code.locks, Nat.add_eq_zero_iff] at noff
  exact ⟨Option.toList_eq_nil_iff.mp (List.length_eq_zero_iff.mp noff.1),
    Option.toList_eq_nil_iff.mp (List.length_eq_zero_iff.mp noff.2)⟩

theorem Locks.change (locks : Locks state) {self : Fin procs} {change : Change cpus procs}
    (here : (state.cpu cpu).code = .thread self (.run (.point point)))
    (same : SameLocks (some self) (.point point) pc)
    (write : ∀ process write, change.write = some (process, write) → (∀ context,
      write ≠ .save context) ∧ (write.plain = true ∧ point.plock (some self) = some process ∨
      (∃ other, write = .parent other) ∧ point.spin = some .wait)) :
    LockStep state cpu (change.effect state cpu self pc) := by
  refine locks.keep rfl same.wf (by rw [here]; exact same.plock) (by rw [here]; exact same.spin)
    ?_ ?_ rfl ?_
  · rintro _ _ ⟨⟩
    exact locks.context cpu self _ here
  · intro process context written
    exact absurd rfl ((write process _ written).1 context)
  · intro process change written
    rw [here]
    exact (write process change written).2

theorem Transition.lockStep (locks : Locks state) (transition : Acts state cpu effect) :
    LockStep state cpu effect := by
  have wf := locks.wf cpu
  have context := locks.context cpu
  obtain ⟨code, here, transition⟩ := transition.code
  rw [here] at wf context
  -- A step of the scheduler or of a handler that moves no lock.
  have keep : ∀ {next : Cpu procs} {write : Option (Fin procs × Write cpus procs)},
      next.noff = (state.cpu cpu).noff → next.code.Wf → next.code.plock = code.plock →
      next.code.spin = code.spin →
      (∀ self thread, next.code = .thread self thread → next.context = some self) →
      (∀ process change, write = some (process, change) →
        (∀ context, change ≠ .save context) ∧ change.plain = true ∧ code.plock = some process) →
      LockStep state cpu { cpu := next, write } := by
    intro next write noff nextWf plock spin context mine
    refine locks.keep noff nextWf (here ▸ plock) (here ▸ spin) context ?_ rfl ?_
    · intro process context written
      exact absurd rfl ((mine process _ written).1 context)
    · intro process change written
      exact .inl ⟨(mine process change written).2.1, here ▸ (mine process change written).2.2⟩
  cases transition with
  | stop => exact locks.stop _
  | acquireProc acquires free =>
    obtain ⟨nextWf, before, after, spin⟩ := acquires.proc wf
    refine ⟨nextWf, ?_, ?_, nofun, .acquire _ rfl free (here ▸ before) after, .none rfl (here ▸ spin)⟩
    · simp [locks.noff, here, Code.locks, before, after, spin, Nat.add_comm]
    · intro self thread same
      obtain ⟨earlier, rfl⟩ := acquires.self same
      exact context self earlier rfl
  | acquireSpin acquires free =>
    obtain ⟨nextWf, before, after, plock⟩ := acquires.spin wf
    refine ⟨nextWf, ?_, ?_, nofun, .none rfl (here ▸ plock), .acquire _ rfl free (here ▸ before) after⟩
    · simp [locks.noff, here, Code.locks, before, after, plock]
    · intro self thread same
      obtain ⟨earlier, rfl⟩ := acquires.self same
      exact context self earlier rfl
  | releaseProc releases held =>
    obtain ⟨nextWf, before, after, spin⟩ := releases.proc wf
    refine ⟨nextWf, ?_, ?_, nofun, .release _ rfl (here ▸ before) after, .none rfl (here ▸ spin)⟩
    · simp [locks.noff, here, Code.locks, before, after, spin]
    · intro self thread same
      obtain ⟨earlier, rfl⟩ := releases.self same
      exact context self earlier rfl
  | releaseSpin releases held =>
    obtain ⟨nextWf, before, after, plock⟩ := releases.spin wf
    refine ⟨nextWf, ?_, ?_, nofun, .none rfl (here ▸ plock), .release _ rfl (here ▸ before) after⟩
    · simp [locks.noff, here, Code.locks, before, after, plock]
    · intro self thread same
      obtain ⟨earlier, rfl⟩ := releases.self same
      exact context self earlier rfl
  | moves moves => exact locks.change here (moves.sameLocks wf) fun _ _ => moves.write
  | calls calls =>
    refine locks.change here calls.sameLocks fun _ _ written => ?_
    cases calls <;> cases written
  | preempt interruptible running =>
    obtain ⟨plock, spin⟩ := locks.unlocked interruptible
    rw [here] at plock spin
    refine keep rfl ⟨wf, plock, spin, Pc.running_of_unlocked plock⟩ plock.symm spin.symm ?_ nofun
    rintro _ _ ⟨⟩
    exact context _ _ rfl
  | yield =>
    refine keep rfl wf rfl rfl ?_ ?_
    · rintro _ _ ⟨⟩
      exact context _ _ rfl
    · rintro _ _ ⟨⟩
      exact ⟨nofun, rfl, rfl⟩
  | sched scheds held marked saved =>
    have same := saved.symm.trans (context _ _ rfl)
    cases same
    have mine := (locks.proc _ cpu).mp held
    refine locks.keep rfl trivial mine.symm ?_ nofun ?_ rfl ?_
    · rw [here]
      cases scheds <;> rfl
    · rintro _ _ ⟨⟩
      cases scheds with
      | leaving => trivial
      | yield => exact wf
    · rintro _ _ ⟨⟩
      exact .inl ⟨rfl, mine⟩
  | wrap | skip other | mark | back | finish => exact keep rfl trivial rfl rfl nofun nofun
  | run runnable =>
    refine keep rfl trivial rfl rfl nofun ?_
    rintro _ _ ⟨⟩
    exact ⟨nofun, rfl, rfl⟩
  | swtch loaded =>
    obtain ⟨nextWf, plock, spin⟩ := load_wf (locks.saved _) loaded
    refine keep rfl nextWf plock spin ?_ ?_
    · rintro _ _ ⟨⟩
      rfl
    · rintro _ _ ⟨⟩
      exact ⟨nofun, rfl, rfl⟩
  | interrupt => exact keep rfl ⟨rfl, trivial⟩ rfl rfl nofun nofun
  | handles handles =>
    have same := handles.sameLocks wf
    refine keep rfl same.wf same.plock same.spin nofun ?_
    intro process change written
    cases handles <;> cases written
    exact ⟨nofun, rfl, rfl⟩

/-- While a CPU holds the lock of a process, the others change nothing but its parent. -/
theorem Locks.untouched (locks : Locks state) {holder : Fin cpus}
    (held : (state.cpu holder).code.plock = some process) (other : holder ≠ cpu)
    (transition : Acts state cpu effect) :
    ∃ parent, (apply state cpu effect).proc process = { state.proc process with parent } := by
  have lock : (state.proc process).lock = some holder := (locks.proc process holder).mpr held
  have notMine : (state.cpu cpu).code.plock ≠ some process := fun mine =>
    other (locks.proc.unique held mine)
  have elsewhere : ∀ {target write}, effect.write = some (target, write) → process ≠ target →
      ∃ parent, (apply state cpu effect).proc process = { state.proc process with parent } := by
    intro target write written different
    rw [apply_proc_some written, overwrite_of_ne different]
    exact ⟨_, rfl⟩
  cases (transition.lockStep locks).proc with
  | none write =>
    rw [apply_proc_none write]
    exact ⟨_, rfl⟩
  | acquire target write free =>
    refine elsewhere write fun same => ?_
    subst same
    rw [lock] at free
    contradiction
  | release target write before | plain target change write _ before =>
    exact elsewhere write fun same => notMine (same ▸ before)
  | parent target parent write =>
    cases Decidable.eq_or_ne process target with
    | inl same =>
      subst same
      rw [apply_proc_some write, overwrite_self]
      exact ⟨_, rfl⟩
    | inr different => exact elsewhere write different

theorem initial_locks (initial : (machine cpus procs).initial state) : Locks state := by
  obtain ⟨cpu, proc, spin, _⟩ := initial
  have lock : ∀ process, (state.proc process).lock = none := by
    intro process
    rw [proc]
    split <;> rfl
  constructor
  · intro process cpu'
    simp only [lock, cpu, Code.plock, Scheduler.plock]
    simp
  · intro lock cpu'
    simp only [spin, cpu, Code.spin]
    simp
  · intro cpu'
    rw [cpu]
    trivial
  · intro cpu'
    rw [cpu]
    rfl
  · intro cpu' self thread here
    rw [cpu] at here
    contradiction
  · intro process
    rw [proc]
    split <;> trivial

end Xv6.Sched
