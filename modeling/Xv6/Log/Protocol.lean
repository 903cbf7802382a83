import Mathlib.Data.Fintype.Basic
import Xv6.Log.Disk
import Xv6.Proc.Wakeup
import Xv6.Transition.Run

namespace Xv6.Log.Protocol

open Xv6.Transition

/-! # begin_op, log_write and end_op under concurrency

`log.c` above the disk, with `sleep` and `wakeup` from `proc.c`.  Any number of
processes run operations; a step is one process's code between two points where
another process could tell the difference: a lock acquire or release, the state
change in `sleep`, one iteration of `wakeup`, or a piece of code under `log.lock`.
`p->lock` is held exactly at the places `Pc.ownLock` lists.
-/

/-- What a process sleeps on; `&log` is the only channel of this file. -/
inductive Channel where
  | log
deriving DecidableEq, Repr

inductive Pc where
  | outside
  /-- `begin_op`, at `acquire(&log.lock)`, and at the top of its loop. -/
  | beginAcquire
  | beginTest
  /-- `sleep(&log, &log.lock)`: at `acquire(&p->lock)`, at `release(lk)`, at the
  assignments to `chan` and `state`, and inside `sched`. -/
  | sleepAcquire
  | sleepRelease
  | sleepMark
  | sleepSched
  /-- Switched out, with `p->lock` released by the scheduler. -/
  | asleep
  /-- Back from `sched`, and at `acquire(lk)`. -/
  | sleepReturn
  | sleepReacquire
  /-- Between `begin_op` and `end_op`. -/
  | operating
  | writeAcquire (block : Nat)
  | writeBody (block : Nat)
  | endAcquire
  | endBody
  /-- The loop of `wakeup(&log)`, before looking at process `index`. -/
  | endWake (index : Nat)
  | endRelease (doCommit : Bool)
  /-- `commit`: up to `install_trans`, at `log.lh.n = 0`, at the last `write_head`. -/
  | commitInstall
  | commitClear
  | commitErase
  | doneAcquire
  | doneBody
  | doneWake (index : Nat)
  | doneRelease
deriving DecidableEq, Repr

/-- The places where the process holds `log.lock`. -/
def Pc.logLock : Pc → Bool
  | .beginTest | .sleepAcquire | .sleepRelease | .writeBody _ | .endBody | .endWake _
  | .endRelease _ | .doneBody | .doneWake _ | .doneRelease => true
  | _ => false

/-- The places where the process's own `p->lock` is held. -/
def Pc.ownLock : Pc → Bool
  | .sleepRelease | .sleepMark | .sleepSched | .sleepReturn => true
  | _ => false

/-- Admitted by `begin_op` and not yet subtracted by `end_op`. -/
def Pc.inOp : Pc → Bool
  | .operating | .writeAcquire _ | .writeBody _ | .endAcquire | .endBody => true
  | _ => false

/-- Inside the `log_write` call. -/
def Pc.inLogWrite : Pc → Bool
  | .writeAcquire _ | .writeBody _ => true
  | _ => false

/-- Running `commit()`. -/
def Pc.inCommit : Pc → Bool
  | .commitInstall | .commitClear | .commitErase => true
  | _ => false

/-- From setting `log.committing` to clearing it. -/
def Pc.marksCommitting : Pc → Bool
  | .endRelease true | .commitInstall | .commitClear | .commitErase | .doneAcquire
  | .doneBody => true
  | _ => false

/-- From the failed test in `begin_op` until the wakeup. -/
def Pc.drowsy : Pc → Bool
  | .sleepAcquire | .sleepRelease | .sleepMark | .sleepSched | .asleep => true
  | _ => false

/-- The position of a process in the loop of `wakeup(&log)`. -/
def Pc.waking : Pc → Option Nat
  | .endWake index | .doneWake index => some index
  | _ => none

inductive Panic where
  | tooBig
  | outsideTrans
  | logCommitting
deriving DecidableEq, Repr

/-- A completed `log_write`: by which operation, of which block, into which commit. -/
structure Written where
  operation : Nat
  block : Nat
  epoch : Nat
deriving DecidableEq, Repr

/-- The fields of `log` and of the process table, and the ghost record of what the
operations logged: `operation` numbers them as `begin_op` admits them, `blocks`
lists what the current operation of a process wrote, and `epoch` counts the groups
committed so far. -/
structure State (count : Nat) where
  lock : Option (Fin count)
  outstanding : Int
  committing : Bool
  lh : List Nat
  pc : Fin count → Pc
  state : Fin count → ProcState
  chan : Fin count → Option Channel
  panic : Option Panic
  epoch : Nat
  admitted : Nat
  operation : Fin count → Nat
  blocks : Fin count → List Nat
  written : List Written

inductive Event (count : Nat) where
  | beginOp (process : Fin count)
  | logWrite (process : Fin count) (block : Nat)
  | endOp (process : Fin count)
  /-- The process executes its next piece of code. -/
  | step (process : Fin count)
  /-- A scheduler picks a `RUNNABLE` process and switches to it. -/
  | schedule (process : Fin count)
  /-- `kill` makes a sleeping process `RUNNABLE`. -/
  | kill (process : Fin count)

section

variable {count : Nat}

section

variable (state : State count) (process : Fin count)

def State.goto (pc : Pc) : State count :=
  { state with pc := Function.update state.pc process pc }

def State.stop (reason : Panic) : State count :=
  { state with panic := some reason }

/-- `acquire(&log.lock)`: spins while the lock is taken. -/
def State.acquire (pc : Pc) : Option (State count) :=
  if state.lock = none then some { state.goto process pc with lock := some process } else none

def State.release (pc : Pc) : State count :=
  { state.goto process pc with lock := none }

/-- The test of `begin_op`: this operation might exhaust log space. -/
def State.full : Prop :=
  (state.lh.length : Int) + (state.outstanding + 1) * MAXOPBLOCKS > LOGSIZE

instance : Decidable state.full := inferInstanceAs (Decidable (_ > _))

/-- `p->state == SLEEPING && p->chan == &log`. -/
def State.sleepsOnLog : Prop :=
  state.state process = .sleeping ∧ state.chan process = some .log

instance : Decidable (state.sleepsOnLog process) :=
  inferInstanceAs (Decidable (_ ∧ _))

/-- One iteration of `wakeup(&log)`. -/
def State.wake (index : Nat) (next done : Pc) : Option (State count) :=
  match wakeup process (fun other => (state.pc other).ownLock)
      (fun other => state.sleepsOnLog other) index with
  | .ended => some (state.goto process done)
  | .spins => none
  | .passes => some (state.goto process next)
  | .wakes sleeper =>
    some { state.goto process next with
      state := Function.update state.state sleeper .runnable }

end

def stepProcess (size : Nat) (state : State count) (process : Fin count) : Option (State count) :=
  match state.pc process with
  | .outside | .asleep | .operating => none
  | .beginAcquire => state.acquire process .beginTest
  | .beginTest =>
    if state.committing then
      some (state.goto process .sleepAcquire)
    else if state.full then
      some (state.goto process .sleepAcquire)
    else
      some { state.release process .operating with
        outstanding := state.outstanding + 1
        admitted := state.admitted + 1
        operation := Function.update state.operation process state.admitted
        blocks := Function.update state.blocks process [] }
  | .sleepAcquire => some (state.goto process .sleepRelease)
  | .sleepRelease => some (state.release process .sleepMark)
  | .sleepMark => some { state.goto process .sleepSched with
      chan := Function.update state.chan process (some .log)
      state := Function.update state.state process .sleeping }
  | .sleepSched => some (state.goto process .asleep)
  | .sleepReturn => some { state.goto process .sleepReacquire with
      chan := Function.update state.chan process none }
  | .sleepReacquire => state.acquire process .beginTest
  | .writeAcquire block => state.acquire process (.writeBody block)
  | .writeBody block =>
    if tooBig size state.lh then
      some (state.stop .tooBig)
    else if state.outstanding < 1 then
      some (state.stop .outsideTrans)
    else
      some { state.release process .operating with
        lh := absorb block state.lh
        blocks := Function.update state.blocks process (absorb block (state.blocks process))
        written := state.written ++ [⟨state.operation process, block, state.epoch⟩] }
  | .endAcquire => state.acquire process .endBody
  | .endBody =>
    let outstanding := state.outstanding - 1
    if state.committing then
      some ({ state with outstanding }.stop .logCommitting)
    else if outstanding = 0 then
      some { state.goto process (.endRelease true) with outstanding, committing := true }
    else
      some { state.goto process (.endWake 0) with outstanding }
  | .endWake index => state.wake process index (.endWake (index + 1)) (.endRelease false)
  | .endRelease doCommit =>
    some (state.release process (if doCommit then .commitInstall else .outside))
  | .commitInstall =>
    if state.lh.length > 0 then
      some (state.goto process .commitClear)
    else
      some (state.goto process .doneAcquire)
  | .commitClear => some { state.goto process .commitErase with
      lh := []
      epoch := state.epoch + 1 }
  | .commitErase => some (state.goto process .doneAcquire)
  | .doneAcquire => state.acquire process .doneBody
  | .doneBody => some { state.goto process (.doneWake 0) with committing := false }
  | .doneWake index => state.wake process index (.doneWake (index + 1)) .doneRelease
  | .doneRelease => some (state.release process .outside)

def step (size : Nat) (state : State count) (event : Event count) : Option (State count) :=
  if state.panic.isSome then
    none
  else
    match event with
    | .beginOp process =>
      if state.pc process = .outside then some (state.goto process .beginAcquire) else none
    | .logWrite process block =>
      if state.pc process = .operating then
        some (state.goto process (.writeAcquire block))
      else
        none
    | .endOp process =>
      if state.pc process = .operating then some (state.goto process .endAcquire) else none
    | .step process => stepProcess size state process
    | .schedule process =>
      if state.pc process = .asleep ∧ state.state process = .runnable then
        some { state.goto process .sleepReturn with
          state := Function.update state.state process .running }
      else
        none
    | .kill process =>
      if state.pc process = .asleep ∧ state.state process = .sleeping then
        some { state with state := Function.update state.state process .runnable }
      else
        none

/-- After `initlog`: nobody in an operation, the log empty. -/
def start (count : Nat) : State count where
  lock := none
  outstanding := 0
  committing := false
  lh := []
  pc _ := .outside
  state _ := .running
  chan _ := none
  panic := none
  epoch := 0
  admitted := 0
  operation _ := 0
  blocks _ := []
  written := []

/-- `size` is `log.size`, the number of blocks of the log with its header. -/
def machine (count size : Nat) : Machine (State count) (Event count) where
  initial state := state = start count
  step := step size

end

end Xv6.Log.Protocol
