import Xv6.Console.Input
import Xv6.Fs.Inode
import Xv6.Ipc.Pipe
import Xv6.Vm.Copy

namespace Xv6.Read

open Xv6.Data Xv6.Vm
open Xv6.Console (Cons)
open Xv6.Fs (Dinode Superblock bmap uadd)
open Xv6.Log (Disk)
open Xv6.Ipc (Pipe)

/-! # fileread

`fileread` of `file.c` with `piperead`, `consoleread` and `readi`, up to the bytes they
store in user memory.  A call that sleeps comes with a list of what it finds when `sleep`
returns; the memory is that of the caller, which nobody else writes.
-/

def CONSOLE : Nat := 1

/-- The fields of a `struct file` that `fileread` uses; `pipe` and `ip` stand in the `World`. -/
structure File where
  type : FileType
  readable : Bool
  off : BitVec 32
  major : BitVec 16
deriving DecidableEq

/-- `readi` and `copyout` may panic, and `fileread` itself. -/
inductive Panic where
  | vm (reason : Vm.Panic)
  | fs (reason : Fs.Panic)
  | fileread
deriving DecidableEq, Repr

section

variable (root : Word)

/-! ## Pipes -/

/-- The copying loop of `piperead` with `n - i` bytes to go. -/
def pipereadLoop (addr : Word) : Nat → Nat → Pipe → Memory → Except Vm.Panic (Nat × Pipe × Memory)
  | 0, i, pipe, mem => .ok (i, pipe, mem)
  | remaining + 1, i, pipe, mem =>
    if pipe.nread = pipe.nwrite then
      .ok (i, pipe, mem)
    else do
      let ch := pipe.next
      let pipe := pipe.advance
      let (result, mem) ← copyout mem root (addr + BitVec.ofNat 64 i) (fun _ => ch) 1
      if result = -1 then
        .ok (i, pipe, mem)
      else
        pipereadLoop addr remaining (i + 1) (pipe.deliver ch) mem

/-- The list has `pr->killed` and the pipe at each return of `sleep`.  Without a value the
call still sleeps. -/
def piperead (addr : Word) (n : Int) : List (Bool × Pipe) → Bool → Pipe → Memory →
    Except Vm.Panic (Option Int × Pipe × Memory)
  | wakes, killed, pipe, mem =>
    if pipe.nread = pipe.nwrite ∧ pipe.writeopen then
      if killed then
        .ok (some (-1), pipe, mem)
      else
        match wakes with
        | [] => .ok (none, pipe, mem)
        | (killed, pipe) :: wakes => piperead addr n wakes killed pipe mem
    else do
      let (i, pipe, mem) ← pipereadLoop root addr n.toNat 0 pipe mem
      .ok (some i, pipe, mem)

/-! ## The console -/

/-- The loop of `consoleread` with `n` of `target` bytes to go. -/
def consolereadLoop (killed : Bool) (dst : Word) (target : Nat) : Nat → Cons → Memory →
    Except Vm.Panic (Console.Outcome × Cons × Memory)
  | 0, cons, mem => .ok (.returned target, cons, mem)
  | n + 1, cons, mem =>
    if cons.r = cons.w then
      .ok (if killed then .returned (-1) else .asleep (n + 1), cons, mem)
    else
      let c := cons.next
      let cons := cons.advance
      if c = Console.C 'D' then
        .ok (.returned (target - (n + 1)), if n + 1 < target then cons.pushBack else cons, mem)
      else do
        let (result, mem) ← copyout mem root (dst + BitVec.ofNat 64 (target - (n + 1))) (fun _ => c) 1
        if result = -1 then
          .ok (.returned (target - (n + 1)), cons, mem)
        else if c = Console.newline then
          .ok (.returned (target - n), cons, mem)
        else
          consolereadLoop killed dst target n cons mem

/-- `consoleread` with `n` of `target` bytes to go. -/
def consolereadFrom (dst : Word) (target : Nat) : List (Bool × Cons) → Bool → Nat → Cons → Memory →
    Except Vm.Panic (Option Int × Cons × Memory)
  | wakes, killed, n, cons, mem => do
    let (outcome, cons, mem) ← consolereadLoop root killed dst target n cons mem
    match outcome with
    | .returned value => .ok (some value, cons, mem)
    | .asleep n =>
      match wakes with
      | [] => .ok (none, cons, mem)
      | (killed, cons) :: wakes => consolereadFrom dst target wakes killed n cons mem

/-- For `n` at most zero the loop does not run and `target - n` is zero. -/
def consoleread (dst : Word) (n : Int) (wakes : List (Bool × Cons)) (killed : Bool) (cons : Cons)
    (mem : Memory) : Except Vm.Panic (Option Int × Cons × Memory) :=
  consolereadFrom root dst n.toNat wakes killed n.toNat cons mem

/-! ## Inodes -/

variable (sb : Superblock)

/-- The loop of `readi` with a user destination. -/
def readiLoop : Nat → Disk → Dinode → Memory → Word → Nat → Nat → Nat →
    Except Panic (Int × Dinode × Disk × Memory)
  | 0, disk, ip, mem, _, _, tot, _ => .ok (tot, ip, disk, mem)
  | fuel + 1, disk, ip, mem, dst, off, tot, n =>
    if tot < n then do
      let (addr, ip, disk) ← (bmap sb disk ip (off / BSIZE)).mapError .fs
      let m := min (n - tot) (BSIZE - off % BSIZE)
      let (result, mem) ← (copyout mem root dst (fun index => disk addr (off % BSIZE + index))
        (BitVec.ofNat 64 m)).mapError .vm
      if result = -1 then
        .ok (-1, ip, disk, mem)
      else
        readiLoop fuel disk ip mem (dst + BitVec.ofNat 64 m) (off + m) (tot + m) n
    else
      .ok (tot, ip, disk, mem)

def readi (disk : Disk) (ip : Dinode) (mem : Memory) (dst : Word) (off n : Nat) :
    Except Panic (Int × Dinode × Disk × Memory) :=
  if off > ip.size ∨ uadd off n < off then
    .ok (0, ip, disk, mem)
  else
    let n := if uadd off n > ip.size then ip.size - off else n
    readiLoop root sb n disk ip mem dst off 0 n

/-! ## Files -/

/-- What the caller finds when `sleep` returns. -/
structure Wake where
  killed : Bool
  pipe : Pipe
  cons : Cons

/-- What a file can refer to, with the inode as `ilock` leaves it, and the memory. -/
structure World where
  killed : Bool
  pipe : Pipe
  cons : Cons
  disk : Disk
  ip : Dinode
  mem : Memory

/-- `devsw[major].read` is not null. -/
def devswRead (major : BitVec 16) : Bool := major.toInt = CONSOLE

/-- `n` is an `int`, which `readi` takes for a `uint`. -/
def fileread (file : File) (addr : Word) (n : BitVec 32) (wakes : List Wake) (world : World) :
    Except Panic (Option Int × File × World) :=
  if file.readable = false then
    .ok (some (-1), file, world)
  else
    match file.type with
    | .pipe => do
      let (value, pipe, mem) ← (piperead root addr n.toInt (wakes.map fun wake => (wake.killed, wake.pipe))
        world.killed world.pipe world.mem).mapError .vm
      .ok (value, file, { world with pipe, mem })
    | .device =>
      if file.major.toInt < 0 ∨ file.major.toInt ≥ NDEV ∨ devswRead file.major = false then
        .ok (some (-1), file, world)
      else do
        let (value, cons, mem) ← (consoleread root addr n.toInt (wakes.map fun wake => (wake.killed, wake.cons))
          world.killed world.cons world.mem).mapError .vm
        .ok (value, file, { world with cons, mem })
    | .inode => do
      let (r, ip, disk, mem) ← readi root sb world.disk world.ip world.mem addr file.off.toNat n.toNat
      let file := if r > 0 then { file with off := file.off + BitVec.ofInt 32 r } else file
      .ok (some r, file, { world with ip, disk, mem })
    | .none => .error .fileread

end

end Xv6.Read
