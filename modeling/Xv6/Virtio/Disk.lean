import Mathlib.Data.Fin.VecNotation
import Mathlib.Data.Fintype.Basic
import Xv6.Data.Ensures
import Xv6.Data.Ring
import Xv6.Transition.Run

namespace Xv6.Virtio

open Xv6.Data Xv6.Transition

/-! # The virtio disk driver and its device

`virtio_disk.c` from `alloc_desc` to `virtio_disk_intr`, with the device that the
rings are shared with.  Code under `vdisk_lock` is cut where the device could tell
the difference.  What is transferred (the command headers and the data of a block)
plays no part.
-/

def NUM : Nat := 8

def VRING_DESC_F_NEXT : Nat := 1

def VRING_DESC_F_WRITE : Nat := 2

/-- What the address in a descriptor points to. -/
inductive Address where
  | null
  /-- `&disk.ops[index]` -/
  | ops (index : Nat)
  /-- `b->data` -/
  | data (buffer : Nat)
  /-- `&disk.info[index].status` -/
  | status (index : Nat)
deriving DecidableEq, Repr

structure Desc where
  addr : Address
  flags : Nat
  next : Nat
deriving DecidableEq, Repr

/-- An entry of `disk.info`. -/
structure Info where
  buffer : Option Nat
  status : Nat
deriving DecidableEq, Repr

/-- `struct disk`; a ring is its `idx` and its entries. -/
structure Driver where
  desc : Nat → Desc
  free : Nat → Bool
  info : Nat → Info
  availIdx : BitVec 16
  availRing : Nat → Nat
  usedIdx : BitVec 16
  usedRing : Nat → Nat
  /-- `disk.used_idx`: how far the driver has looked in the used ring. -/
  seen : BitVec 16

inductive Panic where
  /-- "free_desc 1" -/
  | freeDescRange
  /-- "free_desc 2" -/
  | freeDescTwice
  /-- "virtio_disk_intr status" -/
  | intrStatus
  /-- `b->disk = 0` with `b == 0`. -/
  | nullBuffer
deriving DecidableEq, Repr

/-! ## Descriptors -/

def allocDesc (driver : Driver) : Option (Nat × Driver) :=
  ((List.range NUM).find? fun index => driver.free index).map fun index =>
    (index, { driver with free := overwrite driver.free index false })

def freeDesc (driver : Driver) (index : Nat) : Except Panic Driver :=
  if index ≥ NUM then
    .error .freeDescRange
  else if driver.free index then
    .error .freeDescTwice
  else
    .ok { driver with
      desc := overwrite driver.desc index ⟨.null, 0, 0⟩
      free := overwrite driver.free index true }

/-- The loop of `free_chain`.  No more than `NUM` descriptors can be freed in a row, so
`fuel` does not run out before `free_desc` panics. -/
def freeChain : Nat → Driver → Nat → Except Panic Driver
  | 0, _, _ => .error .freeDescTwice
  | fuel + 1, driver, index => do
    let flag := (driver.desc index).flags
    let nxt := (driver.desc index).next
    let driver ← freeDesc driver index
    if flag &&& VRING_DESC_F_NEXT ≠ 0 then freeChain fuel driver nxt else .ok driver

/-- `alloc3_desc`: the array `idx`, if there are three free descriptors. -/
def alloc3Desc (driver : Driver) : Except Panic (Option (Fin 3 → Nat) × Driver) :=
  match allocDesc driver with
  | none => .ok (none, driver)
  | some (first, driver) =>
    match allocDesc driver with
    | none => do
      let driver ← freeDesc driver first
      .ok (none, driver)
    | some (second, driver) =>
      match allocDesc driver with
      | none => do
        let driver ← freeDesc driver first
        let driver ← freeDesc driver second
        .ok (none, driver)
      | some (third, driver) => .ok (some ![first, second, third], driver)

/-- `virtio_disk_rw` from the formatting of the descriptors to the entry in the avail
ring, without `b->disk = 1`. -/
def format (driver : Driver) (buffer : Nat) (write : Bool) (idx : Fin 3 → Nat) : Driver :=
  let desc := overwrite driver.desc (idx 0) ⟨.ops (idx 0), VRING_DESC_F_NEXT, idx 1⟩
  let flags := if write then 0 else VRING_DESC_F_WRITE
  let desc := overwrite desc (idx 1) ⟨.data buffer, flags ||| VRING_DESC_F_NEXT, idx 2⟩
  let desc := overwrite desc (idx 2) ⟨.status (idx 0), VRING_DESC_F_WRITE, 0⟩
  { driver with
    desc
    info := overwrite driver.info (idx 0) ⟨some buffer, 0xff⟩
    availRing := overwrite driver.availRing (driver.availIdx.toNat % NUM) (idx 0) }

/-- `disk.info[index].b = 0` -/
def Driver.forget (driver : Driver) (index : Nat) : Driver :=
  { driver with info := overwrite driver.info index { driver.info index with buffer := none } }

/-! ## Processes, interrupts and the device -/

/-- Where a process is in `virtio_disk_rw(b, write)`; `request` numbers the requests
(a ghost). -/
inductive Task where
  | idle
  /-- At `acquire`, in `virtio_disk_rw` or in `sleep(&disk.free[0])`. -/
  | entering (buffer : Nat) (write : Bool)
  | allocating (buffer : Nat) (write : Bool)
  | formatting (buffer : Nat) (write : Bool) (idx : Fin 3 → Nat)
  /-- Before `disk.avail->idx += 1`. -/
  | publishing (buffer : Nat) (idx : Fin 3 → Nat) (request : Nat)
  /-- At the test `b->disk == 1`. -/
  | testing (buffer : Nat) (idx : Fin 3 → Nat) (request : Nat)
  /-- In `sleep(b, &disk.vdisk_lock)`. -/
  | waiting (buffer : Nat) (idx : Fin 3 → Nat) (request : Nat)
  /-- Past the loop. -/
  | freeing (buffer : Nat) (idx : Fin 3 → Nat) (request : Nat)

/-- Who holds `vdisk_lock`: a process, or an interrupt handler. -/
inductive Holder (count handlers : Nat) where
  | process (process : Fin count)
  | handler (handler : Fin handlers)
deriving DecidableEq

/-- The head of a chain, and the request it is for (a ghost). -/
structure Chain where
  head : Nat
  request : Nat
deriving DecidableEq, Repr

/-- `disk` is `b->disk`; a process is `asleep` until a `wakeup` or a `kill`.  The device
keeps `consumed`, its position in the avail ring, and `inflight`, the chains it works on.
Ghosts: the buffers of the requests in the order they were made, the chains in the avail
and used rings, and which buffer each completion cleared. -/
structure State (count handlers : Nat) where
  driver : Driver
  disk : Nat → Bool
  lock : Option (Holder count handlers)
  task : Fin count → Task
  asleep : Fin count → Bool
  consumed : BitVec 16
  inflight : List Chain
  panic : Option Panic
  requests : List Nat
  queued : List Chain
  completed : List Chain
  cleared : List (Nat × Nat)

inductive Event (count handlers : Nat) where
  /-- A process calls `virtio_disk_rw`. -/
  | call (process : Fin count) (buffer : Nat) (write : Bool)
  | run (process : Fin count)
  | interrupt (handler : Fin handlers)
  /-- The device takes the next chain from the avail ring. -/
  | consume
  /-- The device finishes one of its chains, with status zero. -/
  | complete (position : Nat)
  | kill (process : Fin count)

/-- The buffer of the call under way. -/
def Task.buffer : Task → Option Nat
  | .idle => none
  | .entering buffer _ | .allocating buffer _ | .formatting buffer _ _ | .publishing buffer _ _
  | .testing buffer _ _ | .waiting buffer _ _ | .freeing buffer _ _ => some buffer

section

variable {count handlers : Nat}

section

variable (state : State count handlers)

def State.goto (process : Fin count) (task : Task) (asleep : Bool) : State count handlers :=
  { state with
    task := overwrite state.task process task
    asleep := overwrite state.asleep process asleep }

def State.stop (reason : Panic) : State count handlers :=
  { state with panic := some reason }

/-- `wakeup(&disk.free[0])` -/
def State.wakeupFree : State count handlers :=
  { state with asleep := fun process =>
      match state.task process with
      | .entering _ _ => false
      | _ => state.asleep process }

/-- `wakeup(b)` -/
def State.wakeupBuffer (buffer : Nat) : State count handlers :=
  { state with asleep := fun process =>
      match state.task process with
      | .waiting other _ _ => if other = buffer then false else state.asleep process
      | _ => state.asleep process }

def runProcess (process : Fin count) : Option (State count handlers) :=
  match state.task process with
  | .idle => none
  | .entering buffer write =>
    if state.lock = none ∧ state.asleep process = false then
      some { state.goto process (.allocating buffer write) false with
        lock := some (.process process) }
    else
      none
  | .allocating buffer write =>
    match alloc3Desc state.driver with
    | .error reason => some (state.stop reason)
    | .ok (some idx, driver) =>
      some { state.goto process (.formatting buffer write idx) false with driver }
    | .ok (none, driver) =>
      -- If there were descriptors to give back, that has woken others.
      let woken := if (allocDesc state.driver).isSome then state.wakeupFree else state
      some { woken.goto process (.entering buffer write) true with driver, lock := none }
  | .formatting buffer write idx =>
    some { state.goto process (.publishing buffer idx state.requests.length) false with
      driver := format state.driver buffer write idx
      disk := overwrite state.disk buffer true
      requests := state.requests ++ [buffer] }
  | .publishing buffer idx request =>
    some { state.goto process (.testing buffer idx request) false with
      driver := { state.driver with availIdx := state.driver.availIdx + 1#16 }
      queued := state.queued ++ [⟨idx 0, request⟩] }
  | .testing buffer idx request =>
    if state.disk buffer then
      some { state.goto process (.waiting buffer idx request) true with lock := none }
    else
      some (state.goto process (.freeing buffer idx request) false)
  | .waiting buffer idx request =>
    if state.lock = none ∧ state.asleep process = false then
      some { state.goto process (.testing buffer idx request) false with
        lock := some (.process process) }
    else
      none
  | .freeing _ idx _ =>
    match freeChain (NUM + 1) (state.driver.forget (idx 0)) (idx 0) with
    | .error reason => some (state.stop reason)
    | .ok driver =>
      some { state.wakeupFree.goto process .idle false with driver, lock := none }

/-- One iteration of the loop of `virtio_disk_intr`, or its end. -/
def intrLoop : State count handlers :=
  if state.driver.seen = state.driver.usedIdx then
    { state with lock := none }
  else
    let id := state.driver.usedRing (state.driver.seen.toNat % NUM)
    if (state.driver.info id).status ≠ 0 then
      state.stop .intrStatus
    else
      match (state.driver.info id).buffer with
      | none => state.stop .nullBuffer
      | some buffer =>
        { state.wakeupBuffer buffer with
          driver := { state.driver with seen := state.driver.seen + 1#16 }
          disk := overwrite state.disk buffer false
          completed := state.completed.tail
          cleared := state.cleared ++
            (state.completed.head?.map fun chain => (chain.request, buffer)).toList }

def runHandler (handler : Fin handlers) : Option (State count handlers) :=
  if state.lock = some (.handler handler) then
    some (intrLoop state)
  else if state.lock = none then
    some { state with lock := some (.handler handler) }
  else
    none

/-- The device reads the entry of the avail ring. -/
def consume : Option (State count handlers) :=
  if state.consumed = state.driver.availIdx then
    none
  else
    let head := state.driver.availRing (state.consumed.toNat % NUM)
    some { state with
      consumed := state.consumed + 1#16
      queued := state.queued.tail
      inflight := state.inflight ++
        (state.queued.head?.map fun chain => { chain with head }).toList }

/-- The device follows the chain to its third descriptor, writes the status there and
adds an entry to the used ring. -/
def complete (position : Nat) : Option (State count handlers) :=
  match state.inflight[position]? with
  | none => none
  | some chain =>
    let driver := state.driver
    let last := (driver.desc (driver.desc chain.head).next).next
    let info := match (driver.desc last).addr with
      | .status index => overwrite driver.info index { driver.info index with status := 0 }
      | _ => driver.info
    some { state with
      driver := { driver with
        info
        usedRing := overwrite driver.usedRing (driver.usedIdx.toNat % NUM) chain.head
        usedIdx := driver.usedIdx + 1#16 }
      inflight := state.inflight.eraseIdx position
      completed := state.completed ++ [chain] }

end

/-- The caller of `virtio_disk_rw` holds the lock of the buffer. -/
def step (state : State count handlers) (event : Event count handlers) :
    Option (State count handlers) :=
  if state.panic.isSome then
    none
  else
    match event with
    | .call process buffer write =>
      if (state.task process).buffer = none ∧
          ∀ other, (state.task other).buffer ≠ some buffer then
        some (state.goto process (.entering buffer write) false)
      else
        none
    | .run process => runProcess state process
    | .interrupt handler => runHandler state handler
    | .consume => consume state
    | .complete position => complete state position
    | .kill process =>
      some { state with asleep := overwrite state.asleep process false }

end

/-- After `virtio_disk_init`: all descriptors free, all indices zero. -/
def machine (count handlers : Nat) : Machine (State count handlers) (Event count handlers) where
  initial state := (∀ index, index < NUM → state.driver.free index = true) ∧
    state.driver.availIdx = 0 ∧ state.driver.usedIdx = 0 ∧ state.driver.seen = 0 ∧
    state.consumed = 0 ∧ state.inflight = [] ∧ state.lock = none ∧
    (∀ process, state.task process = .idle) ∧ state.panic = none ∧
    state.requests = [] ∧ state.queued = [] ∧ state.completed = [] ∧ state.cleared = []
  step := step

end Xv6.Virtio
