import Xv6.Data.Ring
import Xv6.Transition.Run

namespace Xv6.Console

open Xv6.Data Xv6.Transition

/-! # consoleread and consoleintr

`console.c`, its input half.  A step is the code that runs under `cons.lock`: all of
`consoleintr`, or `consoleread` from `acquire` or the return of `sleep` to the next `sleep`
or to `release`.  Echoing and `procdump` touch no input.
-/

def INPUT_BUF : Nat := 128

/-- Control-x. -/
def C (x : Char) : UInt8 := (x.toNat - '@'.toNat).toUInt8

def newline : UInt8 := '\n'.toNat.toUInt8

def carriageReturn : UInt8 := '\r'.toNat.toUInt8

/-- The buffer of `cons` with its read, write and edit index. -/
structure Cons where
  buf : Nat → UInt8
  r : BitVec 32
  w : BitVec 32
  e : BitVec 32

/-! ## Typing -/

/-- The loop of `^U`; `fuel` bounds its iterations. -/
def killLine : Nat → Cons → Cons
  | 0, cons => cons
  | fuel + 1, cons =>
    if cons.e ≠ cons.w ∧ cons.buf ((cons.e - 1#32).toNat % INPUT_BUF) ≠ newline then
      killLine fuel { cons with e := cons.e - 1#32 }
    else
      cons

/-- `cons.buf[cons.e++ % INPUT_BUF] = c`. -/
def Cons.store (cons : Cons) (c : UInt8) : Cons :=
  { cons with
    buf := overwrite cons.buf (cons.e.toNat % INPUT_BUF) c
    e := cons.e + 1#32 }

/-- The default branch of `consoleintr`, with room for the character. -/
def append (c : UInt8) (cons : Cons) : Cons × Bool :=
  let cons := cons.store c
  if c = newline ∨ c = C 'D' ∨ cons.e = cons.r + BitVec.ofNat 32 INPUT_BUF then
    ({ cons with w := cons.e }, true)
  else
    (cons, false)

/-- `c` is what `uartgetc` read from the receive register, a byte.  The flag says that
`consoleintr` calls `wakeup(&cons.r)`. -/
def consoleintr (c : UInt8) (cons : Cons) : Cons × Bool :=
  if c = C 'P' then
    (cons, false)
  else if c = C 'U' then
    -- No more iterations than there are characters after `w`.
    (killLine (gap cons.w cons.e) cons, false)
  else if c = C 'H' ∨ c = 0x7f then
    (if cons.e ≠ cons.w then { cons with e := cons.e - 1#32 } else cons, false)
  else if c ≠ 0 ∧ cons.e - cons.r < BitVec.ofNat 32 INPUT_BUF then
    append (if c = carriageReturn then newline else c) cons
  else
    (cons, false)

/-! ## Reading -/

/-- What happens to characters at the console. -/
inductive Action where
  | typed (c : UInt8)
  /-- `consoleread` has copied a character to its caller. -/
  | delivered (c : UInt8)
  /-- `consoleread` has taken a `^D` for good. -/
  | endOfFile
  /-- `either_copyout` has failed for a character. -/
  | lost (c : UInt8)
deriving DecidableEq, Repr

/-- How a section of `consoleread` ends: with a result, or in `sleep` with `n` bytes to go. -/
inductive Outcome where
  | returned (value : Int)
  | asleep (n : Nat)
deriving DecidableEq, Repr

structure Section where
  cons : Cons
  actions : List Action
  outcome : Outcome

def Section.after (action : Action) (rest : Section) : Section :=
  { rest with actions := action :: rest.actions }

/-- `c = cons.buf[cons.r++ % INPUT_BUF]`. -/
def Cons.next (cons : Cons) : UInt8 := cons.buf (cons.r.toNat % INPUT_BUF)

def Cons.advance (cons : Cons) : Cons := { cons with r := cons.r + 1#32 }

/-- `cons.r--`. -/
def Cons.pushBack (cons : Cons) : Cons := { cons with r := cons.r - 1#32 }

/-- The loop of `consoleread` with `n` of `target` bytes to go; `writable` says where
`either_copyout` can write. -/
def readLoop (killed : Bool) (writable : Nat → Bool) (target : Nat) : Nat → Cons → Section
  | 0, cons => ⟨cons, [], .returned target⟩
  | n + 1, cons =>
    if cons.r = cons.w then
      ⟨cons, [], if killed then .returned (-1) else .asleep (n + 1)⟩
    else if cons.next = C 'D' then
      if n + 1 < target then
        -- The `^D` is left for the next call.
        ⟨cons.advance.pushBack, [], .returned (target - (n + 1))⟩
      else
        ⟨cons.advance, [.endOfFile], .returned (target - (n + 1))⟩
    else if writable (target - (n + 1)) then
      if cons.next = newline then
        ⟨cons.advance, [.delivered cons.next], .returned (target - n)⟩
      else
        (readLoop killed writable target n cons.advance).after (.delivered cons.next)
    else
      ⟨cons.advance, [.lost cons.next], .returned (target - (n + 1))⟩

/-! ## Processes -/

/-- A call of `consoleread` under way. -/
structure Task where
  writable : Nat → Bool
  target : Nat
  n : Nat

structure Proc where
  task : Option Task
  sleeping : Bool
  killed : Bool

/-- The last two fields are ghosts: all that happened so far, and the call that ran in the
last step, whether its process was killed, and the section it went through. -/
structure State (count : Nat) where
  cons : Cons
  proc : Fin count → Proc
  log : List Action
  last : Option (Bool × Task × Section)

inductive Event (count : Nat) where
  | consoleintr (c : UInt8)
  | consoleread (process : Fin count) (writable : Nat → Bool) (n : Int)
  /-- A process that was woken goes on after `sleep`. -/
  | resume (process : Fin count)
  | kill (process : Fin count)

section

variable {count : Nat}

/-- The process goes through one section of its call. -/
def run (state : State count) (process : Fin count) (task : Task) : State count :=
  let killed := (state.proc process).killed
  let part := readLoop killed task.writable task.target task.n state.cons
  { cons := part.cons
    proc := overwrite state.proc process
      (match part.outcome with
      | .returned _ => ⟨none, false, killed⟩
      | .asleep n => ⟨some { task with n }, true, killed⟩)
    log := state.log ++ part.actions
    last := some (killed, task, part) }

def step (state : State count) : Event count → Option (State count)
  | .consoleintr c =>
    let (cons, woken) := consoleintr c state.cons
    some
      { cons
        proc := fun process =>
          { state.proc process with sleeping := !woken && (state.proc process).sleeping }
        log := state.log ++ [.typed c]
        last := none }
  | .consoleread process writable n =>
    match (state.proc process).task with
    | none =>
      -- For `n` at most zero the loop does not run and `target - n` is zero.
      some (run state process ⟨writable, n.toNat, n.toNat⟩)
    | some _ => none
  | .resume process =>
    match (state.proc process).task with
    | none => none
    | some task => if (state.proc process).sleeping then none else some (run state process task)
  | .kill process =>
    some { state with
      proc := overwrite state.proc process
        { state.proc process with killed := true, sleeping := false }
      last := none }

end

/-- The indices are equal at boot. -/
def machine (count : Nat) : Machine (State count) (Event count) where
  initial state := state.cons.w = state.cons.r ∧ state.cons.e = state.cons.r ∧
    (∀ process, (state.proc process).task = none) ∧ state.log = [] ∧ state.last = none
  step := step

end Xv6.Console
