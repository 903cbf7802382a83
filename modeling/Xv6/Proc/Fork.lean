import Mathlib.Data.Fintype.Basic
import Xv6.Param
import Xv6.Transition.Run

namespace Xv6.Fork

open Xv6.Transition

/-! # fork, exit, wait and trace

`proc.c` and `syscall.c` as far as a process's `trace_mask` goes.  A step is a
section under one lock, or one statement outside any lock.  Memory, files and
the process name play no part; an allocation or a `copyout` that fails is part
of the event.
-/

def SYS_fork : Nat := 1
def SYS_wait : Nat := 3
def SYS_trace : Nat := 22

/-- `NELEM(syscalls)`. -/
def NSYSCALL : Nat := 24

/-- `other` stands for every system call that leaves the process table alone. -/
inductive Call where
  | fork
  | exit
  | wait
  | trace (mask : BitVec 32)
  | other (num : Nat)
deriving DecidableEq, Repr

/-- Where a process is in the kernel. -/
inductive Place (count : Nat) where
  | user
  /-- The scan of `allocproc`. -/
  | forkScan (index : Nat)
  /-- `fork`, before `np->parent = p`, `np->state = RUNNABLE` and the copy of the mask. -/
  | forkParent (child : Fin count)
  | forkRunnable (child : Fin count)
  | forkCopy (child : Fin count)
  /-- `exit`, entered by a system call or because the process was killed. -/
  | exiting (called : Bool)
  | waiting
  | tracing (mask : BitVec 32)
  | working (num : Nat)
  /-- Back in `syscall`, before it reads `p->trace_mask`. -/
  | test (num : Nat)
deriving DecidableEq, Repr

/-- The last three fields are ghosts: the mask that inheritance and the process's own
calls of `trace` give it, whether it has called `trace`, and its mask when it last
entered `fork`. -/
structure Proc (count : Nat) where
  state : ProcState
  pid : Nat
  parent : Option (Fin count)
  killed : Bool
  traceMask : BitVec 32
  place : Place count
  expected : BitVec 32
  chosen : Bool
  atFork : BitVec 32
deriving DecidableEq, Repr

/-- What `syscall` prints. -/
inductive Line where
  | traced (pid num : Nat)
  | unknown (pid num : Nat)
deriving DecidableEq, Repr

structure State (count : Nat) where
  proc : Fin count → Proc count
  nextpid : Nat
  console : List Line
  panic : Bool

inductive Event (count : Nat) where
  /-- The process traps into the kernel for a system call. -/
  | call (process : Fin count) (call : Call)
  /-- It traps for an interrupt, or for a fault that kills it. -/
  | trap (process : Fin count) (fault : Bool)
  /-- It executes its next step in the kernel; `fails` says that an allocation or a
  `copyout` of the step fails. -/
  | step (process : Fin count) (fails : Bool)
  | schedule (process : Fin count)
  | yield (process : Fin count)
  | sleep (process : Fin count)
  | wakeup (process : Fin count)
  | kill (process : Fin count)

section

variable {count : Nat}

section

variable (state : State count) (process : Fin count)

def State.set (proc : Proc count) : State count :=
  { state with proc := Function.update state.proc process proc }

def State.goto (place : Place count) : State count :=
  state.set process { state.proc process with place }

/-- `freeproc` leaves `trace_mask` as it is. -/
def freeproc (proc : Proc count) : Proc count :=
  { proc with pid := 0, parent := none, killed := false, state := .unused }

def reparent (init process : Fin count) (proc : Proc count) : Proc count :=
  if proc.parent = some process then { proc with parent := some init } else proc

/-- The first zombie child that the scan of `wait` meets. -/
def State.zombieChild : Option (Fin count) :=
  (List.finRange count).find? fun other =>
    (state.proc other).parent = some process ∧ (state.proc other).state = .zombie

def State.hasChild : Bool :=
  (List.finRange count).any fun other => (state.proc other).parent = some process

/-- The test of `syscall`: `p->trace_mask & 1 << num`. -/
def traced (mask : BitVec 32) (num : Nat) : Bool :=
  mask &&& (1#32 <<< num) ≠ 0#32

/-- The end of `usertrap`. -/
def usertrapret : State count :=
  state.goto process (if (state.proc process).killed then .exiting false else .user)

def enter : Call → State count
  | .fork => state.set process { state.proc process with
      place := .forkScan 0, atFork := (state.proc process).traceMask }
  | .exit => state.goto process (.exiting true)
  | .wait => state.goto process .waiting
  | .trace mask => state.goto process (.tracing mask)
  | .other num => state.goto process (.working num)

end

def stepProcess (init : Fin count) (state : State count) (process : Fin count) (fails : Bool) :
    Option (State count) :=
  match (state.proc process).place with
  | .user => none
  | .forkScan index =>
    if inside : index < count then
      let child : Fin count := ⟨index, inside⟩
      if (state.proc child).state = .unused then
        let found := { state with nextpid := state.nextpid + 1 }
        if fails then
          some ((found.set child (freeproc (state.proc child))).goto process (.test SYS_fork))
        else
          some ((found.set child { state.proc child with
            pid := state.nextpid
            state := .used
            place := .user
            expected := (state.proc process).atFork
            chosen := false }).goto process (.forkParent child))
      else
        some (state.goto process (.forkScan (index + 1)))
    else
      some (state.goto process (.test SYS_fork))
  | .forkParent child =>
    some ((state.set child { state.proc child with parent := some process }).goto process
      (.forkRunnable child))
  | .forkRunnable child =>
    some ((state.set child { state.proc child with state := .runnable }).goto process
      (.forkCopy child))
  | .forkCopy child =>
    some ((state.set child { state.proc child with
      traceMask := (state.proc process).traceMask }).goto process (.test SYS_fork))
  | .exiting _ =>
    if process = init then
      some { state with panic := true }
    else
      some { state with proc := fun other =>
        let passed := reparent init process (state.proc other)
        if other = process then { passed with state := .zombie } else passed }
  | .waiting =>
    match state.zombieChild process with
    | some child =>
      if fails then
        some (state.goto process (.test SYS_wait))
      else
        some ((state.set child (freeproc (state.proc child))).goto process (.test SYS_wait))
    | none =>
      if state.hasChild process = false ∨ (state.proc process).killed = true then
        some (state.goto process (.test SYS_wait))
      else
        some (state.set process { state.proc process with state := .sleeping })
  | .tracing mask =>
    some (state.set process { state.proc process with
      traceMask := mask, expected := mask, chosen := true, place := .test SYS_trace })
  | .working num =>
    if 0 < num ∧ num < NSYSCALL then
      some (state.goto process (.test num))
    else
      some (usertrapret { state with
        console := state.console ++ [.unknown (state.proc process).pid num] } process)
  | .test num =>
    if traced (state.proc process).traceMask num then
      some (usertrapret { state with
        console := state.console ++ [.traced (state.proc process).pid num] } process)
    else
      some (usertrapret state process)

def step (init : Fin count) (state : State count) (event : Event count) : Option (State count) :=
  if state.panic then
    none
  else
    match event with
    | .call process call =>
      if (state.proc process).state = .running ∧ (state.proc process).place = .user then
        if (state.proc process).killed then
          some (state.goto process (.exiting false))
        else
          some (enter state process call)
      else
        none
    | .trap process fault =>
      if (state.proc process).state = .running ∧ (state.proc process).place = .user then
        if fault ∨ (state.proc process).killed then
          some (state.set process { state.proc process with
            killed := true, place := .exiting false })
        else
          some state
      else
        none
    | .step process fails =>
      if (state.proc process).state = .running then
        stepProcess init state process fails
      else
        none
    | .schedule process =>
      if (state.proc process).state = .runnable then
        some (state.set process { state.proc process with state := .running })
      else
        none
    | .yield process =>
      if (state.proc process).state = .running then
        some (state.set process { state.proc process with state := .runnable })
      else
        none
    | .sleep process =>
      if (state.proc process).state = .running then
        some (state.set process { state.proc process with state := .sleeping })
      else
        none
    | .wakeup process =>
      if (state.proc process).state = .sleeping then
        some (state.set process { state.proc process with state := .runnable })
      else
        none
    | .kill process =>
      if (state.proc process).state = .sleeping then
        some (state.set process { state.proc process with killed := true, state := .runnable })
      else
        some (state.set process { state.proc process with killed := true })

def vacant (count : Nat) : Proc count where
  state := .unused
  pid := 0
  parent := none
  killed := false
  traceMask := 0
  place := .user
  expected := 0
  chosen := false
  atFork := 0

/-- After `userinit`: one process, and no mask set yet. -/
def start (init : Fin count) : State count where
  proc := Function.update (fun _ => vacant count) init
    { vacant count with state := .runnable, pid := 1 }
  nextpid := 2
  console := []
  panic := false

def machine (init : Fin count) : Machine (State count) (Event count) where
  initial state := state = start init
  step := step init

end

end Xv6.Fork
