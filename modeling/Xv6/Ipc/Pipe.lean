import Xv6.Data.Ring

namespace Xv6.Ipc

open Xv6.Data

/-! # The ring of a pipe -/

def PIPESIZE : Nat := 512

/-- `struct pipe`; the last field is a ghost: the bytes `piperead` has delivered, oldest first. -/
structure Pipe where
  data : Nat → UInt8
  nread : BitVec 32
  nwrite : BitVec 32
  readopen : Bool
  writeopen : Bool
  delivered : List UInt8

/-- `pi->data[pi->nwrite++ % PIPESIZE] = ch`. -/
def Pipe.store (pipe : Pipe) (ch : UInt8) : Pipe :=
  { pipe with
    data := overwrite pipe.data (pipe.nwrite.toNat % PIPESIZE) ch
    nwrite := pipe.nwrite + 1#32 }

/-- `ch = pi->data[pi->nread++ % PIPESIZE]`. -/
def Pipe.next (pipe : Pipe) : UInt8 := pipe.data (pipe.nread.toNat % PIPESIZE)

def Pipe.advance (pipe : Pipe) : Pipe := { pipe with nread := pipe.nread + 1#32 }

/-- `copyout` of a byte that `advance` has taken. -/
def Pipe.deliver (pipe : Pipe) (ch : UInt8) : Pipe :=
  { pipe with delivered := pipe.delivered ++ [ch] }

/-- The copying loop of `piperead` with `n - i` bytes to go; `writable` says where
`copyout` can write. -/
def readLoop (writable : Nat → Bool) : Nat → Pipe → Nat → Pipe × Nat
  | 0, pipe, i => (pipe, i)
  | remaining + 1, pipe, i =>
    if pipe.nread = pipe.nwrite then
      (pipe, i)
    else if writable i then
      readLoop writable remaining (pipe.advance.deliver pipe.next) (i + 1)
    else
      (pipe.advance, i)

def closeEnd (writable : Bool) (pipe : Pipe) : Pipe :=
  if writable then { pipe with writeopen := false } else { pipe with readopen := false }

/-- The bytes of the pipe that are still to be read. -/
def Pipe.waiting (pipe : Pipe) : List UInt8 :=
  contents PIPESIZE pipe.data pipe.nread pipe.nwrite

/-- What was stored has been delivered, or is waiting. -/
structure Fifo (stored : List UInt8) (pipe : Pipe) : Prop where
  fits : gap pipe.nread pipe.nwrite ≤ PIPESIZE
  order : stored = pipe.delivered ++ pipe.waiting

variable {pipe : Pipe} {stored : List UInt8}

theorem PIPESIZE_divides : PIPESIZE ∣ 2 ^ 32 := by decide

theorem Fifo.store (fifo : Fifo stored pipe)
    (room : pipe.nwrite ≠ pipe.nread + BitVec.ofNat 32 PIPESIZE) (ch : UInt8) :
    Fifo (stored ++ [ch]) (pipe.store ch) := by
  have below : gap pipe.nread pipe.nwrite < PIPESIZE := by
    refine Nat.lt_of_le_of_ne fifo.fits fun full => room ?_
    exact (gap_eq_iff (by decide)).mp full
  have narrow : gap pipe.nread pipe.nwrite + 1 < 2 ^ 32 :=
    Nat.lt_of_le_of_lt below (by decide)
  constructor
  · show gap pipe.nread (pipe.nwrite + 1#32) ≤ PIPESIZE
    rw [gap_write_succ narrow]
    exact below
  · show stored ++ [ch] = pipe.delivered ++ contents PIPESIZE
      (overwrite pipe.data (pipe.nwrite.toNat % PIPESIZE) ch) pipe.nread (pipe.nwrite + 1#32)
    rw [contents_push PIPESIZE_divides below narrow, fifo.order, List.append_assoc]
    rfl

theorem Fifo.deliver (fifo : Fifo stored pipe) (nonempty : pipe.nread ≠ pipe.nwrite) :
    Fifo stored (pipe.advance.deliver pipe.next) := by
  have step := gap_read_succ nonempty
  constructor
  · show gap (pipe.nread + 1#32) pipe.nwrite ≤ PIPESIZE
    have fits := fifo.fits
    omega
  · show stored = (pipe.delivered ++ [pipe.next]) ++
      contents PIPESIZE pipe.data (pipe.nread + 1#32) pipe.nwrite
    rw [fifo.order, Pipe.waiting, contents_pop PIPESIZE_divides nonempty, List.append_assoc]
    rfl

theorem Fifo.closeEnd (fifo : Fifo stored pipe) (writable : Bool) :
    Fifo stored (closeEnd writable pipe) := by
  cases writable <;> exact ⟨fifo.fits, fifo.order⟩

end Xv6.Ipc
