import Mathlib.Data.Fintype.Basic
import Xv6.Data.Overwrite
import Xv6.Param
import Xv6.Transition.Run

namespace Xv6.Sched

open Xv6.Data Xv6.Transition

/-! # Processes, CPUs and locks

`proc.c` and `sleeplock.c`, with one step for every acquire or release of a lock, every
change of `p->state` and every `swtch`.  A CPU executes the code of its scheduler or, on
the kernel stack of a process, the code of that process; what it will do next is data, so
that `swtch` can save it in `p->context` and load it on another CPU.  Memory, files and
the rest of the trap frame play no part: an allocation or a `copyout` that fails is part of
the event, and the rest of the kernel appears as calls with locks and channels of its own.
-/

/-- The spin locks other than `p->lock`. -/
inductive Spinlock where
  /-- `wait_lock` -/
  | wait
  /-- `lk->lk` of a sleep lock. -/
  | inner (sleeplock : Nat)
  | other (index : Nat)
deriving DecidableEq, Repr

inductive Lock (procs : Nat) where
  | proc (process : Fin procs)
  | spin (lock : Spinlock)
deriving DecidableEq

/-- What processes sleep on: the address of a process, of a sleep lock or anything else. -/
inductive Channel (procs : Nat) where
  | proc (process : Fin procs)
  | sleeplock (index : Nat)
  | other (index : Nat)
deriving DecidableEq

/-! ## Code -/

section

variable (procs : Nat)

/-- The calls of `sleep`: in `wait`, in `acquiresleep`, and in the rest of the kernel with
a lock and a channel of its own. -/
inductive Sleep where
  | wait
  | acquiresleep (sleeplock : Nat)
  | other (lock channel : Nat)
deriving DecidableEq

/-- Where `wakeup` returns to. -/
inductive Caller where
  | idle
  | held (lock : Nat)
  | reparent (status : BitVec 32) (index : Nat)
  | exit (process : Fin procs) (status : BitVec 32)
  | releasesleep (sleeplock : Nat)
  | handler (lock : Nat)
deriving DecidableEq

/-- A call of `wakeup`; `clock` tells when it was made (a ghost). -/
structure Wakeup where
  chan : Option (Channel procs)
  caller : Caller procs
  clock : Nat
deriving DecidableEq

/-- Why a process calls `sched`, other than `yield`. -/
inductive Leaving where
  | sleep (sleep : Sleep)
  | exit
deriving DecidableEq

/-- What is between the locks.  A point with a process `process` is inside a loop over the
table and holds its lock. -/
inductive Point where
  /-- In user space, or in the rest of the kernel without a lock. -/
  | idle
  /-- In the rest of the kernel with one of its locks. -/
  | held (lock : Nat)
  | sleepBegin (sleep : Sleep)
  | sleepMark (sleep : Sleep)
  | sched (leaving : Leaving)
  /-- Back from `sched`. -/
  | back (leaving : Leaving)
  | wakeup (wakeup : Wakeup procs) (index : Nat)
  | wakeupTest (wakeup : Wakeup procs) (process : Fin procs)
  | kill (pid : BitVec 32) (index : Nat)
  | killTest (pid : BitVec 32) (process : Fin procs)
  | killReturn (value : Int)
  /-- The loop of `allocproc`. -/
  | fork (index : Nat)
  | forkTest (process : Fin procs)
  | forkInit (process : Fin procs)
  | forkParent (process : Fin procs)
  | forkReady (process : Fin procs)
  | reparent (status : BitVec 32) (index : Nat)
  | exitMark (status : BitVec 32)
  | waitScan (index : Nat) (havekids : Bool)
  | waitTest (process : Fin procs)
  | waitCheck (havekids : Bool)
  | acquiresleepTest (sleeplock : Nat)
  | releasesleepClear (sleeplock : Nat)
  | handlerWakeup (lock : Nat) (chan : Channel procs)
deriving DecidableEq

/-- Locks to take and give up, and then a point. -/
inductive Pc where
  | point (point : Point procs)
  | acquire (lock : Lock procs) (next : Pc)
  | release (lock : Lock procs) (next : Pc)
deriving DecidableEq

/-- The code of a process: that of its system calls, or `yield` in a timer interrupt. -/
inductive Thread where
  | run (pc : Pc procs)
  | yieldLock (resume : Pc procs)
  | yieldMark (resume : Pc procs)
  | yieldSched (resume : Pc procs)
  | yieldBack (resume : Pc procs)
deriving DecidableEq

/-- `p->context`; `zero` is what memory holds at boot. -/
inductive Context where
  | zero
  | forkret
  | yield (resume : Pc procs)
  | leaving (leaving : Leaving)
deriving DecidableEq

inductive Scheduler where
  | loop (index : Nat)
  | test (process : Fin procs)
  | mark (process : Fin procs)
  | swtch (process : Fin procs)
  | back (process : Fin procs)
  | unlock (process : Fin procs)
deriving DecidableEq

inductive Code where
  | scheduler (scheduler : Scheduler procs)
  /-- An interrupt in the loop of the scheduler. -/
  | handler (index : Nat) (pc : Pc procs)
  /-- On the kernel stack of `self`. -/
  | thread (self : Fin procs) (thread : Thread procs)
deriving DecidableEq

end

def Sleep.lock : Sleep → Spinlock
  | .wait => .wait
  | .acquiresleep sleeplock => .inner sleeplock
  | .other lock _ => .other lock

def Sleep.chan {procs : Nat} (self : Fin procs) : Sleep → Channel procs
  | .wait => .proc self
  | .acquiresleep sleeplock => .sleeplock sleeplock
  | .other _ channel => .other channel

/-- Where the caller of `sleep` goes on. -/
def Sleep.after {procs : Nat} : Sleep → Point procs
  | .wait => .waitScan 0 false
  | .acquiresleep sleeplock => .acquiresleepTest sleeplock
  | .other lock _ => .held lock

/-- Where the caller of `wakeup` goes on. -/
def Caller.after {procs : Nat} : Caller procs → Pc procs
  | .idle => .point .idle
  | .held lock => .point (.held lock)
  | .reparent status index => .point (.reparent status index)
  | .exit process status => .acquire (.proc process) (.point (.exitMark status))
  | .releasesleep sleeplock => .release (.spin (.inner sleeplock)) (.point .idle)
  | .handler lock => .release (.spin (.other lock)) (.point .idle)

/-! ## State -/

structure Cpu (procs : Nat) where
  /-- `c->proc` -/
  proc : Option (Fin procs)
  code : Code procs
  /-- `c->context`: the local `p` of the scheduler that `swtch` returns to. -/
  context : Option (Fin procs)
  noff : Nat
deriving DecidableEq

/-- `struct proc`.  Ghosts: where the process stopped, if no CPU executes it; the channel it
gave up its lock for and has not been woken from, and since when; a number for every
process that a slot has held. -/
structure Proc (cpus procs : Nat) where
  /-- The CPU that holds `p->lock`. -/
  lock : Option (Fin cpus)
  state : ProcState
  chan : Option (Channel procs)
  killed : Bool
  xstate : BitVec 32
  pid : BitVec 32
  parent : Option (Fin procs)
  context : Context procs
  stopped : Option (Context procs)
  asleep : Option (Channel procs)
  since : Nat
  birth : Nat
deriving DecidableEq

structure Sleeplock where
  locked : Bool
  pid : BitVec 32
deriving DecidableEq, Repr

inductive Panic where
  /-- "acquire" -/
  | acquire
  /-- "release" -/
  | release
  /-- "sched p->lock" -/
  | schedLock
  /-- "sched locks" -/
  | schedLocks
  /-- "sched running" -/
  | schedRunning
  /-- "init exiting" -/
  | initExiting
  /-- "zombie exit" -/
  | zombieExit
deriving DecidableEq, Repr

/-- A process that called `exit`. -/
structure Exit where
  birth : Nat
  pid : BitVec 32
  status : BitVec 32
deriving DecidableEq, Repr

/-- A successful `wait`: who made it, for which child of whom, and what it returned. -/
structure Reaped (procs : Nat) where
  waiter : Fin procs
  parent : Option (Fin procs)
  child : Exit
deriving DecidableEq

/-- Ghosts: the number of times a process fell asleep, the number of processes allocated,
the exits and the successful waits so far, and which process is between `acquiresleep` and
`releasesleep`. -/
structure State (cpus procs : Nat) where
  cpu : Fin cpus → Cpu procs
  proc : Fin procs → Proc cpus procs
  /-- The CPU that holds a spin lock. -/
  spin : Spinlock → Option (Fin cpus)
  sleeplock : Nat → Sleeplock
  initproc : Fin procs
  nextpid : BitVec 32
  panic : Option Panic
  clock : Nat
  births : Nat
  exits : List Exit
  reaped : List (Reaped procs)
  keeps : Nat → Fin procs → Bool

/-! ## Effects of a step

A step changes the CPU that makes it and at most one process, spin lock and sleep lock.
-/

/-- What can happen to a process. -/
inductive Write (cpus procs : Nat) where
  | acquire (cpu : Fin cpus)
  | release
  /-- A sleeping process is made RUNNABLE. -/
  | wakeup
  | kill
  | run
  | yield
  /-- `sleep` is about to give up its lock (a ghost). -/
  | fallAsleep (chan : Channel procs)
  | sleep (chan : Channel procs)
  | tidy
  | save (context : Context procs)
  | resume
  | alloc
  | setup
  | free
  | reap (waiter : Fin procs)
  | ready
  | exit (status : BitVec 32)
  | parent (parent : Fin procs)

structure Effect (cpus procs : Nat) where
  cpu : Cpu procs
  write : Option (Fin procs × Write cpus procs) := none
  spin : Option (Spinlock × Option (Fin cpus)) := none
  sleeplock : Option (Nat × Sleeplock) := none
  keeps : Option (Nat × Fin procs × Bool) := none
  panic : Option Panic := none

section

variable {cpus procs : Nat}

def freeproc (proc : Proc cpus procs) : Proc cpus procs :=
  { proc with
    pid := 0
    parent := none
    chan := none
    killed := false
    xstate := 0
    state := .unused
    stopped := none }

def Write.apply (state : State cpus procs) (proc : Proc cpus procs) :
    Write cpus procs → Proc cpus procs
  | .acquire cpu => { proc with lock := some cpu }
  | .release => { proc with lock := none }
  | .wakeup => { proc with state := .runnable, asleep := none }
  | .kill =>
    { proc with
      killed := true
      state := if proc.state = .sleeping then .runnable else proc.state
      asleep := if proc.state = .sleeping then none else proc.asleep }
  | .run => { proc with state := .running }
  | .yield => { proc with state := .runnable }
  | .fallAsleep chan => { proc with asleep := some chan, since := state.clock }
  | .sleep chan => { proc with chan := some chan, state := .sleeping }
  | .tidy => { proc with chan := none }
  | .save context => { proc with context, stopped := some context }
  | .resume => { proc with stopped := none }
  | .alloc => { proc with pid := state.nextpid, state := .used, birth := state.births }
  | .setup => { proc with context := .forkret, stopped := some .forkret }
  | .free => freeproc proc
  | .reap _ => freeproc proc
  | .ready => { proc with state := .runnable }
  | .exit status => { proc with xstate := status, state := .zombie }
  | .parent other => { proc with parent := some other }

def apply (state : State cpus procs) (cpu : Fin cpus) (effect : Effect cpus procs) :
    State cpus procs where
  cpu := overwrite state.cpu cpu effect.cpu
  proc := match effect.write with
    | none => state.proc
    | some (process, write) =>
      overwrite state.proc process (write.apply state (state.proc process))
  spin := match effect.spin with
    | none => state.spin
    | some (lock, holder) => overwrite state.spin lock holder
  sleeplock := match effect.sleeplock with
    | none => state.sleeplock
    | some (index, value) => overwrite state.sleeplock index value
  initproc := state.initproc
  nextpid := match effect.write with
    | some (_, .alloc) => state.nextpid + 1
    | _ => state.nextpid
  panic := effect.panic
  clock := match effect.write with
    | some (_, .fallAsleep _) => state.clock + 1
    | _ => state.clock
  births := match effect.write with
    | some (_, .alloc) => state.births + 1
    | _ => state.births
  exits := match effect.write with
    | some (process, .exit status) =>
      ⟨(state.proc process).birth, (state.proc process).pid, status⟩ :: state.exits
    | _ => state.exits
  reaped := match effect.write with
    | some (process, .reap waiter) =>
      let proc := state.proc process
      ⟨waiter, proc.parent, proc.birth, proc.pid, proc.xstate⟩ :: state.reaped
    | _ => state.reaped
  keeps := match effect.keeps with
    | none => state.keeps
    | some (index, process, value) =>
      overwrite state.keeps index (overwrite (state.keeps index) process value)

/-! ## Steps -/

section

variable (state : State cpus procs) (cpu : Fin cpus)

def goto (code : Code procs) : Effect cpus procs where
  cpu := { state.cpu cpu with code }

def stop (reason : Panic) : Effect cpus procs where
  cpu := state.cpu cpu
  panic := some reason

def acquire (lock : Lock procs) (code : Code procs) : Option (Effect cpus procs) :=
  let holder := match lock with
    | .proc process => (state.proc process).lock
    | .spin lock => state.spin lock
  match holder with
  | some other => if other = cpu then some (stop state cpu .acquire) else none
  | none => some
      { cpu := { state.cpu cpu with code, noff := (state.cpu cpu).noff + 1 }
        write := match lock with
          | .proc process => some (process, .acquire cpu)
          | .spin _ => none
        spin := match lock with
          | .proc _ => none
          | .spin lock => some (lock, some cpu) }

def release (lock : Lock procs) (code : Code procs) : Effect cpus procs :=
  let holder := match lock with
    | .proc process => (state.proc process).lock
    | .spin lock => state.spin lock
  if holder = some cpu then
    { cpu := { state.cpu cpu with code, noff := (state.cpu cpu).noff - 1 }
      write := match lock with
        | .proc process => some (process, .release)
        | .spin _ => none
      spin := match lock with
        | .proc _ => none
        | .spin lock => some (lock, none) }
  else
    stop state cpu .release

/-- One iteration of the loop of `wakeup`, as far as the lock. -/
def wakeupScan (wakeup : Wakeup procs) (index : Nat) : Pc procs :=
  if inside : index < procs then
    if (state.cpu cpu).proc = some ⟨index, inside⟩ then
      .point (.wakeup wakeup (index + 1))
    else
      .acquire (.proc ⟨index, inside⟩) (.point (.wakeupTest wakeup ⟨index, inside⟩))
  else
    wakeup.caller.after

/-- The test in the loop of `wakeup`. -/
def wakeupWrite (wakeup : Wakeup procs) (process : Fin procs) :
    Option (Fin procs × Write cpus procs) :=
  let proc := state.proc process
  if proc.state = .sleeping ∧ proc.chan = wakeup.chan then some (process, .wakeup) else none

/-- `sched` -/
def sched (self : Fin procs) (context : Context procs) : Option (Effect cpus procs) :=
  if (state.proc self).lock ≠ some cpu then
    some (stop state cpu .schedLock)
  else if (state.cpu cpu).noff ≠ 1 then
    some (stop state cpu .schedLocks)
  else if (state.proc self).state = .running then
    some (stop state cpu .schedRunning)
  else
    (state.cpu cpu).context.map fun process =>
      { goto state cpu (.scheduler (.back process)) with write := some (self, .save context) }

end

/-- A step of a process between locks; `ok` says whether allocations and `copyout` succeed. -/
def pointStep (state : State cpus procs) (cpu : Fin cpus) (self : Fin procs) (ok : Bool)
    (point : Point procs) : Option (Effect cpus procs) :=
  let go (pc : Pc procs) : Effect cpus procs := goto state cpu (.thread self (.run pc))
  match point with
  | .idle | .held _ | .handlerWakeup _ _ => none
  | .sleepBegin sleep => some
      { go (.release (.spin sleep.lock) (.point (.sleepMark sleep))) with
        write := some (self, .fallAsleep (sleep.chan self)) }
  | .sleepMark sleep => some
      { go (.point (.sched (.sleep sleep))) with write := some (self, .sleep (sleep.chan self)) }
  | .sched leaving => sched state cpu self (.leaving leaving)
  | .back (.sleep sleep) => some
      { go (.release (.proc self) (.acquire (.spin sleep.lock) (.point sleep.after))) with
        write := some (self, .tidy) }
  | .back .exit => some (stop state cpu .zombieExit)
  | .wakeup wakeup index => some (go (wakeupScan state cpu wakeup index))
  | .wakeupTest wakeup process => some
      { go (.release (.proc process) (.point (.wakeup wakeup (process + 1)))) with
        write := wakeupWrite state wakeup process }
  | .kill pid index =>
    if inside : index < procs then
      some (go (.acquire (.proc ⟨index, inside⟩) (.point (.killTest pid ⟨index, inside⟩))))
    else
      some (go (.point (.killReturn (-1))))
  | .killTest pid process =>
    if (state.proc process).pid = pid then some
      { go (.release (.proc process) (.point (.killReturn 0))) with write := some (process, .kill) }
    else
      some (go (.release (.proc process) (.point (.kill pid (process + 1)))))
  | .killReturn _ => some (go (.point .idle))
  | .fork index =>
    if inside : index < procs then
      some (go (.acquire (.proc ⟨index, inside⟩) (.point (.forkTest ⟨index, inside⟩))))
    else
      some (go (.point .idle))
  | .forkTest process =>
    if (state.proc process).state = .unused then some
      { go (.point (.forkInit process)) with write := some (process, .alloc) }
    else
      some (go (.release (.proc process) (.point (.fork (process + 1)))))
  -- The rest of `allocproc` and the copies of `fork`; when something cannot be allocated,
  -- `freeproc`.
  | .forkInit process =>
    if ok then some
      { go (.release (.proc process) (.acquire (.spin .wait) (.point (.forkParent process)))) with
        write := some (process, .setup) }
    else some
      { go (.release (.proc process) (.point .idle)) with write := some (process, .free) }
  | .forkParent process => some
      { go (.release (.spin .wait) (.acquire (.proc process) (.point (.forkReady process)))) with
        write := some (process, .parent self) }
  | .forkReady process => some
      { go (.release (.proc process) (.point .idle)) with write := some (process, .ready) }
  | .reparent status index =>
    if inside : index < procs then
      if (state.proc ⟨index, inside⟩).parent = some self then some
        { go (.point (.wakeup ⟨some (.proc state.initproc), .reparent status (index + 1),
            state.clock⟩ 0)) with
          write := some (⟨index, inside⟩, .parent state.initproc) }
      else
        some (go (.point (.reparent status (index + 1))))
    else
      some (go (.point (.wakeup ⟨(state.proc self).parent.map .proc, .exit self status,
        state.clock⟩ 0)))
  | .exitMark status => some
      { go (.release (.spin .wait) (.point (.sched .exit))) with write := some (self, .exit status) }
  | .waitScan index havekids =>
    if inside : index < procs then
      if (state.proc ⟨index, inside⟩).parent = some self then
        some (go (.acquire (.proc ⟨index, inside⟩) (.point (.waitTest ⟨index, inside⟩))))
      else
        some (go (.point (.waitScan (index + 1) havekids)))
    else
      some (go (.point (.waitCheck havekids)))
  | .waitTest process =>
    if (state.proc process).state = .zombie then
      let next := go (.release (.proc process) (.release (.spin .wait) (.point .idle)))
      some (if ok then { next with write := some (process, .reap self) } else next)
    else
      some (go (.release (.proc process) (.point (.waitScan (process + 1) true))))
  | .waitCheck havekids =>
    if ¬havekids ∨ (state.proc self).killed then
      some (go (.release (.spin .wait) (.point .idle)))
    else
      some (go (.acquire (.proc self) (.point (.sleepBegin .wait))))
  | .acquiresleepTest sleeplock =>
    if (state.sleeplock sleeplock).locked then
      some (go (.acquire (.proc self) (.point (.sleepBegin (.acquiresleep sleeplock)))))
    else some
      { go (.release (.spin (.inner sleeplock)) (.point .idle)) with
        sleeplock := some (sleeplock, ⟨true, (state.proc self).pid⟩)
        keeps := some (sleeplock, self, true) }
  | .releasesleepClear sleeplock => some
      { go (.point (.wakeup ⟨some (.sleeplock sleeplock), .releasesleep sleeplock, state.clock⟩ 0)) with
        sleeplock := some (sleeplock, ⟨false, 0⟩) }

section

variable (state : State cpus procs) (cpu : Fin cpus)

def threadStep (self : Fin procs) (ok : Bool) : Thread procs → Option (Effect cpus procs)
  | .run (.point point) => pointStep state cpu self ok point
  | .run (.acquire lock next) => acquire state cpu lock (.thread self (.run next))
  | .run (.release lock next) => some (release state cpu lock (.thread self (.run next)))
  | .yieldLock resume => acquire state cpu (.proc self) (.thread self (.yieldMark resume))
  | .yieldMark resume => some
      { goto state cpu (.thread self (.yieldSched resume)) with write := some (self, .yield) }
  | .yieldSched resume => sched state cpu self (.yield resume)
  | .yieldBack resume => some (release state cpu (.proc self) (.thread self (.run resume)))

/-- What `swtch` finds in `p->context`. -/
def load (self : Fin procs) : Context procs → Option (Thread procs)
  | .zero => none
  | .forkret => some (.run (.release (.proc self) (.point .idle)))
  | .yield resume => some (.yieldBack resume)
  | .leaving leaving => some (.run (.point (.back leaving)))

def schedulerStep : Scheduler procs → Option (Effect cpus procs)
  | .loop index =>
    if inside : index < procs then
      acquire state cpu (.proc ⟨index, inside⟩) (.scheduler (.test ⟨index, inside⟩))
    else
      some (goto state cpu (.scheduler (.loop 0)))
  | .test process =>
    if (state.proc process).state = .runnable then some
      { goto state cpu (.scheduler (.mark process)) with write := some (process, .run) }
    else
      some (goto state cpu (.scheduler (.unlock process)))
  | .mark process => some
      { cpu := { state.cpu cpu with code := .scheduler (.swtch process), proc := some process } }
  | .swtch process =>
    (load process (state.proc process).context).map fun thread =>
      { cpu := { state.cpu cpu with code := .thread process thread, context := some process }
        write := some (process, .resume) }
  | .back process => some
      { cpu := { state.cpu cpu with code := .scheduler (.unlock process), proc := none } }
  | .unlock process =>
    some (release state cpu (.proc process) (.scheduler (.loop (process + 1))))

def handlerStep (index : Nat) : Pc procs → Option (Effect cpus procs)
  | .acquire lock next => acquire state cpu lock (.handler index next)
  | .release lock next => some (release state cpu lock (.handler index next))
  | .point (.handlerWakeup lock chan) =>
    some (goto state cpu (.handler index (.point (.wakeup ⟨some chan, .handler lock,
      state.clock⟩ 0))))
  | .point (.wakeup wakeup next) =>
    some (goto state cpu (.handler index (wakeupScan state cpu wakeup next)))
  | .point (.wakeupTest wakeup process) => some
      { goto state cpu (.handler index (.release (.proc process)
          (.point (.wakeup wakeup (process + 1))))) with
        write := wakeupWrite state wakeup process }
  | .point .idle => some (goto state cpu (.scheduler (.loop index)))
  | _ => none

/-- The next step of a CPU. -/
def codeStep (ok : Bool) : Option (Effect cpus procs) :=
  match (state.cpu cpu).code with
  | .scheduler scheduler => schedulerStep state cpu scheduler
  | .handler index pc => handlerStep state cpu index pc
  | .thread self thread => threadStep state cpu self ok thread

end

inductive Call (procs : Nat) where
  /-- The rest of the kernel takes and gives up a lock of its own. -/
  | lock (index : Nat)
  | unlock
  | sleep (channel : Nat)
  | wakeup (chan : Channel procs)
  | kill (pid : BitVec 32)
  | fork
  | exit (status : BitVec 32)
  | wait
  | acquiresleep (sleeplock : Nat)
  /-- By the process that holds the sleep lock. -/
  | releasesleep (sleeplock : Nat)
deriving DecidableEq

/-- A call made by a process that is at `point`. -/
def call (state : State cpus procs) (cpu : Fin cpus) (self : Fin procs) (point : Point procs)
    (call : Call procs) : Option (Effect cpus procs) :=
  let go (pc : Pc procs) : Effect cpus procs := goto state cpu (.thread self (.run pc))
  match point, call with
  | .idle, .lock index => some (go (.acquire (.spin (.other index)) (.point (.held index))))
  | .held lock, .unlock => some (go (.release (.spin (.other lock)) (.point .idle)))
  | .held lock, .sleep channel =>
    some (go (.acquire (.proc self) (.point (.sleepBegin (.other lock channel)))))
  | .idle, .wakeup chan => some (go (.point (.wakeup ⟨some chan, .idle, state.clock⟩ 0)))
  | .held lock, .wakeup chan =>
    some (go (.point (.wakeup ⟨some chan, .held lock, state.clock⟩ 0)))
  | .idle, .kill pid => some (go (.point (.kill pid 0)))
  | .idle, .fork => some (go (.point (.fork 0)))
  | .idle, .exit status =>
    if self = state.initproc then
      some (stop state cpu .initExiting)
    else
      some (go (.acquire (.spin .wait) (.point (.reparent status 0))))
  | .idle, .wait => some (go (.acquire (.spin .wait) (.point (.waitScan 0 false))))
  | .idle, .acquiresleep sleeplock =>
    some (go (.acquire (.spin (.inner sleeplock)) (.point (.acquiresleepTest sleeplock))))
  | .idle, .releasesleep sleeplock =>
    if state.keeps sleeplock self then some
      { go (.acquire (.spin (.inner sleeplock)) (.point (.releasesleepClear sleeplock))) with
        keeps := some (sleeplock, self, false) }
    else
      none
  | _, _ => none

inductive Event (cpus procs : Nat) where
  | run (cpu : Fin cpus) (ok : Bool)
  | call (cpu : Fin cpus) (call : Call procs)
  /-- A timer interrupt while a process executes. -/
  | preempt (cpu : Fin cpus)
  /-- An interrupt in the loop of the scheduler, whose handler calls `wakeup`. -/
  | interrupt (cpu : Fin cpus) (lock : Nat) (chan : Channel procs)
deriving DecidableEq

def Event.cpu : Event cpus procs → Fin cpus
  | .run cpu _ | .call cpu _ | .preempt cpu | .interrupt cpu _ _ => cpu

def act (state : State cpus procs) : Event cpus procs → Option (Effect cpus procs)
  | .run cpu ok => codeStep state cpu ok
  | .call cpu called =>
    match (state.cpu cpu).code with
    | .thread self (.run (.point point)) => call state cpu self point called
    | _ => none
  | .preempt cpu =>
    match (state.cpu cpu).code with
    | .thread self (.run pc) =>
      -- Interrupts are on when no spin lock is held.
      if (state.cpu cpu).noff = 0 ∧ (state.proc self).state = .running then
        some (goto state cpu (.thread self (.yieldLock pc)))
      else
        none
    | _ => none
  | .interrupt cpu lock chan =>
    match (state.cpu cpu).code with
    | .scheduler (.loop index) =>
      some (goto state cpu (.handler index (.acquire (.spin (.other lock))
        (.point (.handlerWakeup lock chan)))))
    | _ => none

def step (state : State cpus procs) (event : Event cpus procs) : Option (State cpus procs) :=
  if state.panic.isSome then
    none
  else
    (act state event).map (apply state event.cpu)

end

/-- After `userinit`: the first process may run, and every CPU calls `scheduler`. -/
def machine (cpus procs : Nat) : Machine (State cpus procs) (Event cpus procs) where
  initial state :=
    (∀ cpu, state.cpu cpu = ⟨none, .scheduler (.loop 0), none, 0⟩) ∧
    (∀ process, state.proc process = if process = state.initproc then
      ⟨none, .runnable, none, false, 0, 1, none, .forkret, some .forkret, none, 0, 0⟩
    else
      ⟨none, .unused, none, false, 0, 0, none, .zero, none, none, 0, 0⟩) ∧
    (∀ lock, state.spin lock = none) ∧ (∀ index, state.sleeplock index = ⟨false, 0⟩) ∧
    state.nextpid = 2 ∧ state.panic = none ∧ state.clock = 0 ∧ state.births = 1 ∧
    state.exits = [] ∧ state.reaped = [] ∧ ∀ index process, state.keeps index process = false
  step := step

def boot {cpus procs : Nat} (initproc : Fin procs) : State cpus procs where
  cpu _ := ⟨none, .scheduler (.loop 0), none, 0⟩
  proc process := if process = initproc then
      ⟨none, .runnable, none, false, 0, 1, none, .forkret, some .forkret, none, 0, 0⟩
    else
      ⟨none, .unused, none, false, 0, 0, none, .zero, none, none, 0, 0⟩
  spin _ := none
  sleeplock _ := ⟨false, 0⟩
  initproc
  nextpid := 2
  panic := none
  clock := 0
  births := 1
  exits := []
  reaped := []
  keeps _ _ := false

theorem initial_boot {cpus procs : Nat} (initproc : Fin procs) :
    (machine cpus procs).initial (boot initproc) :=
  ⟨fun _ => rfl, fun _ => rfl, fun _ => rfl, fun _ => rfl, rfl, rfl, rfl, rfl, rfl, rfl,
    fun _ _ => rfl⟩

end Xv6.Sched
