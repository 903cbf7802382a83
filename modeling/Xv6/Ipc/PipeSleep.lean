import Mathlib.Data.Fintype.Basic
import Xv6.Ipc.Pipe
import Xv6.Proc.Wakeup
import Xv6.Transition.Run

namespace Xv6.Ipc.Sleep

open Xv6.Data Xv6.Transition

/-! # pipewrite, piperead and pipeclose

`pipe.c` at the grain of single bytes, with the steps of `sleep` and `wakeup` of
`proc.c`: `kill` can come between any two steps, also while its target holds `pi->lock`.
`p->lock` is held exactly at the places `Pc.ownLock` lists.
-/

/-- What a process sleeps on: `&pi->nread` or `&pi->nwrite`. -/
inductive Channel where
  | nread
  | nwrite
deriving DecidableEq, Repr

/-- A call; `source` is what `copyin` reads, and `writable` says where `copyout` can write. -/
inductive Call where
  | pipewrite (source : Nat → Option UInt8) (n : Int)
  | piperead (writable : Nat → Bool) (n : Int)
  | pipeclose (writable : Bool)

/-- The places inside a call where the process holds `pi->lock`. -/
inductive Point where
  /-- The head of the loop of `pipewrite`; `fresh` says that bytes were stored since the
  lock was taken. -/
  | write (source : Nat → Option UInt8) (n : Int) (i : Nat) (fresh : Bool)
  /-- The pipe is full: in `wakeup(&pi->nread)`, before process `index`. -/
  | writeWake (source : Nat → Option UInt8) (n : Int) (i index : Nat)
  | writeSleep (source : Nat → Option UInt8) (n : Int) (i : Nat)
  /-- After the loop: in `wakeup(&pi->nread)`. -/
  | writeDone (source : Nat → Option UInt8) (n : Int) (i index : Nat)
  /-- The `while` of `piperead`. -/
  | readTest (writable : Nat → Bool) (n : Int)
  | readSleep (writable : Nat → Bool) (n : Int)
  /-- The `for` of `piperead`. -/
  | readCopy (writable : Nat → Bool) (n : Int) (i : Nat)
  | readDone (writable : Nat → Bool) (n : Int) (i index : Nat)
  | close (writable : Bool)
  | closeWake (writable : Bool) (index : Nat)
  /-- At `release(&pi->lock)`, about to return. -/
  | release (call : Call) (value : Int)

inductive Pc where
  | outside
  /-- At `acquire(&pi->lock)`. -/
  | acquire (back : Point)
  | inside (point : Point)
  /-- `sleep`: at `release(lk)`, at the assignments to `chan` and `state`, and in `sched`. -/
  | sleepRelease (channel : Channel) (back : Point)
  | sleepMark (channel : Channel) (back : Point)
  | asleep (channel : Channel) (back : Point)

/-- The places where the process holds its own `p->lock`. -/
def Pc.ownLock : Pc → Bool
  | .sleepRelease _ _ | .sleepMark _ _ => true
  | _ => false

/-- `sleeping` is `p->chan` of a `SLEEPING` process. -/
structure Proc where
  pc : Pc
  sleeping : Option Channel
  killed : Bool

/-- The last two fields are ghosts: the bytes stored so far, each with the process that stored
it, and how many of its own a process had stored before its last call. -/
structure State (count : Nat) where
  pipe : Pipe
  lock : Option (Fin count)
  proc : Fin count → Proc
  log : List (Fin count × UInt8)
  base : Fin count → Nat

variable {count : Nat}

section

variable (state : State count) (process : Fin count)

def State.goto (pc : Pc) : State count :=
  { state with proc := overwrite state.proc process { state.proc process with pc } }

/-- One iteration of `wakeup`; `none` while the other process has its lock. -/
def State.wake (channel : Channel) (index : Nat) (next done : Pc) : Option (State count) :=
  match wakeup process (fun other => (state.proc other).pc.ownLock)
      (fun other => (state.proc other).sleeping = some channel) index with
  | .ended => some (state.goto process done)
  | .spins => none
  | .passes => some (state.goto process next)
  | .wakes other =>
    some ({ state with
      proc := overwrite state.proc other { state.proc other with sleeping := none } }.goto
        process next)

/-- An iteration of the loop of `pipewrite`. -/
def writeStep (source : Nat → Option UInt8) (n : Int) (i : Nat) : State count :=
  if (i : Int) < n then
    if !state.pipe.readopen || (state.proc process).killed then
      state.goto process (.inside (.release (.pipewrite source n) (-1)))
    else if state.pipe.nwrite = state.pipe.nread + BitVec.ofNat 32 PIPESIZE then
      state.goto process (.inside (.writeWake source n i 0))
    else
      match source i with
      | none => state.goto process (.inside (.writeDone source n i 0))
      | some ch =>
        { state with
          pipe := state.pipe.store ch
          log := state.log ++ [(process, ch)] }.goto process (.inside (.write source n (i + 1) true))
  else
    state.goto process (.inside (.writeDone source n i 0))

/-- The test of the `while` of `piperead`. -/
def readStep (writable : Nat → Bool) (n : Int) : State count :=
  if state.pipe.nread = state.pipe.nwrite ∧ state.pipe.writeopen then
    if (state.proc process).killed then
      state.goto process (.inside (.release (.piperead writable n) (-1)))
    else
      state.goto process (.inside (.readSleep writable n))
  else
    state.goto process (.inside (.readCopy writable n 0))

/-- An iteration of the `for` of `piperead`. -/
def copyStep (writable : Nat → Bool) (n : Int) (i : Nat) : State count :=
  if (i : Int) < n ∧ state.pipe.nread ≠ state.pipe.nwrite then
    if writable i then
      { state with pipe := state.pipe.advance.deliver state.pipe.next }.goto process
        (.inside (.readCopy writable n (i + 1)))
    else
      { state with pipe := state.pipe.advance }.goto process (.inside (.readDone writable n i 0))
  else
    state.goto process (.inside (.readDone writable n i 0))

/-- The channel that `pipeclose` wakes. -/
def closeChannel (writable : Bool) : Channel := if writable then .nread else .nwrite

/-- A step under `pi->lock`. -/
def pointStep : Point → Option (State count)
  | .write source n i _ => some (writeStep state process source n i)
  | .writeWake source n i index =>
    state.wake process .nread index (.inside (.writeWake source n i (index + 1)))
      (.inside (.writeSleep source n i))
  | .writeSleep source n i =>
    some (state.goto process (.sleepRelease .nwrite (.write source n i false)))
  | .writeDone source n i index =>
    state.wake process .nread index (.inside (.writeDone source n i (index + 1)))
      (.inside (.release (.pipewrite source n) i))
  | .readTest writable n => some (readStep state process writable n)
  | .readSleep writable n =>
    some (state.goto process (.sleepRelease .nread (.readTest writable n)))
  | .readCopy writable n i => some (copyStep state process writable n i)
  | .readDone writable n i index =>
    state.wake process .nwrite index (.inside (.readDone writable n i (index + 1)))
      (.inside (.release (.piperead writable n) i))
  | .close writable =>
    some ({ state with pipe := closeEnd writable state.pipe }.goto process
      (.inside (.closeWake writable 0)))
  | .closeWake writable index =>
    state.wake process (closeChannel writable) index (.inside (.closeWake writable (index + 1)))
      (.inside (.release (.pipeclose writable) 0))
  | .release _ _ => some { state.goto process .outside with lock := none }

def processStep : Option (State count) :=
  match (state.proc process).pc with
  | .outside => none
  | .acquire back =>
    if state.lock = none then
      some { state.goto process (.inside back) with lock := some process }
    else
      none
  | .inside point => pointStep state process point
  | .sleepRelease channel back =>
    some { state.goto process (.sleepMark channel back) with lock := none }
  | .sleepMark channel back =>
    some { state with
      proc := overwrite state.proc process
        { state.proc process with pc := .asleep channel back, sleeping := some channel } }
  | .asleep _ back =>
    -- A process that is `RUNNABLE` again returns from `sched` when a CPU takes it.
    if (state.proc process).sleeping = none then
      some (state.goto process (.acquire back))
    else
      none

end

inductive Event (count : Nat) where
  | call (process : Fin count) (call : Call)
  /-- The process executes its next step. -/
  | step (process : Fin count)
  /-- `kill` needs the lock of the process. -/
  | kill (process : Fin count)

/-- The place of a call after `acquire`. -/
def Call.start : Call → Point
  | .pipewrite source n => .write source n 0 false
  | .piperead writable n => .readTest writable n
  | .pipeclose writable => .close writable

/-- The bytes that a process has stored. -/
def sent (process : Fin count) (log : List (Fin count × UInt8)) : List UInt8 :=
  (log.filter fun entry => entry.1 = process).map Prod.snd

def step (state : State count) : Event count → Option (State count)
  | .call process call =>
    match (state.proc process).pc with
    | .outside =>
      some ({ state with
        base := overwrite state.base process (sent process state.log).length }.goto
          process (.acquire call.start))
    | _ => none
  | .step process => processStep state process
  | .kill process =>
    if (state.proc process).pc.ownLock then
      none
    else
      some { state with
        proc := overwrite state.proc process
          { state.proc process with killed := true, sleeping := none } }

/-- After `pipealloc`, with whatever the page held in `data`. -/
def machine (count : Nat) : Machine (State count) (Event count) where
  initial state := state.pipe.nread = 0 ∧ state.pipe.nwrite = 0 ∧ state.pipe.readopen = true ∧
    state.pipe.writeopen = true ∧ state.pipe.delivered = [] ∧ state.log = [] ∧ state.lock = none ∧
    ∀ process, state.base process = 0 ∧ (state.proc process).pc = .outside ∧
      (state.proc process).sleeping = none
  step := step

variable {state : State count} {process : Fin count} {writable : Nat → Bool} {n : Int} {i : Nat}

theorem step_copy (here : (state.proc process).pc = .inside (.readCopy writable n i)) :
    (machine count).step state (.step process) = some (copyStep state process writable n i) := by
  show processStep state process = _
  rw [processStep, here]
  rfl

/-- The `for` of `piperead` as a whole: the steps of the process up to its `wakeup`. -/
theorem readLoop_execute (here : (state.proc process).pc = .inside (.readCopy writable n i)) :
    ∃ steps, (machine count).execute state (List.replicate steps (.step process)) =
      some ({ state with pipe := (readLoop writable (n - i).toNat state.pipe i).1 }.goto process
        (.inside (.readDone writable n (readLoop writable (n - i).toNat state.pipe i).2 0))) := by
  generalize remaining : (n - i).toNat = left
  induction left generalizing state i with
  | zero =>
    refine ⟨1, ?_⟩
    rw [List.replicate_one, Machine.execute, step_copy here, copyStep, if_neg (by omega)]
    rfl
  | succ left ih =>
    unfold readLoop
    by_cases empty : state.pipe.nread = state.pipe.nwrite
    · refine ⟨1, ?_⟩
      rw [List.replicate_one, Machine.execute, step_copy here, copyStep,
        if_neg fun both => both.2 empty, if_pos empty]
      rfl
    have more : (i : Int) < n ∧ state.pipe.nread ≠ state.pipe.nwrite := ⟨by omega, empty⟩
    rw [if_neg empty]
    by_cases mapped : writable i
    · have next : (({ state with pipe := state.pipe.advance.deliver state.pipe.next }.goto process
          (.inside (.readCopy writable n (i + 1)))).proc process).pc =
            .inside (.readCopy writable n (i + 1)) := congrArg Proc.pc (overwrite_self ..)
      obtain ⟨steps, ran⟩ := ih next (by omega)
      refine ⟨steps + 1, ?_⟩
      rw [List.replicate_succ, Machine.execute, step_copy here, copyStep, if_pos more, if_pos mapped,
        if_pos mapped]
      refine ran.trans ?_
      simp only [State.goto, overwrite_overwrite, overwrite_self]
    · refine ⟨1, ?_⟩
      rw [List.replicate_one, Machine.execute, step_copy here, copyStep, if_pos more, if_neg mapped,
        if_neg mapped]
      rfl

end Xv6.Ipc.Sleep
