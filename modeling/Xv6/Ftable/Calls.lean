import Xv6.Data.References
import Xv6.Param
import Xv6.Transition.Run

namespace Xv6.Ftable

open Xv6.Data Xv6.Transition

/-! # Open files

`file.c`, the calls of `sysfile.c` that make, copy and close descriptors, `pipealloc` and
`pipeclose`, and what `fork` and `exit` do with descriptors; each call runs to its end.
What path names lead to, whether memory can be allocated and whether user memory can be
written are part of the call.  Ghosts number the pipes and the inode references that were
ever made, and record which of them have been given up.
-/

structure File where
  ref : Nat
  type : FileType
  readable : Bool
  writable : Bool
  /-- The page of the pipe. -/
  pipe : Nat
  /-- The reference to an inode. -/
  ip : Nat
  off : Nat
  major : Int
deriving DecidableEq, Repr

structure Pipe where
  readopen : Bool
  writeopen : Bool
  /-- A ghost. -/
  number : Nat
deriving DecidableEq, Repr

inductive Panic where
  /-- "filedup" -/
  | filedup
  /-- "fileclose" -/
  | fileclose
  /-- "init exiting" -/
  | initExiting
  /-- A pipe was used whose page had been freed. -/
  | freedPipe
deriving DecidableEq, Repr

/-- What a path name leads to. -/
inductive InodeType where
  | directory
  | file
  | device
deriving DecidableEq, Repr

structure Inode where
  type : InodeType
  major : Int
deriving DecidableEq, Repr

structure State (procs files fds : Nat) where
  live : Fin procs → Bool
  /-- `p->ofile[fd]` -/
  ofile : Fin procs × Fin fds → Option (Fin files)
  ftable : Fin files → File
  initproc : Fin procs
  /-- The pages that are pipes. -/
  page : Nat → Option Pipe
  pipes : Nat
  freed : List Nat
  lookups : Nat
  iputs : List Nat
  panic : Option Panic

variable {procs files fds : Nat}

section

variable (state : State procs files fds)

def State.setFile (file : Fin files) (entry : File) : State procs files fds :=
  { state with ftable := overwrite state.ftable file entry }

def State.setOfile (process : Fin procs) (fd : Fin fds)
    (file : Option (Fin files)) : State procs files fds :=
  { state with ofile := overwrite state.ofile (process, fd) file }

def State.setPage (page : Nat) (pipe : Option Pipe) : State procs files fds :=
  { state with page := overwrite state.page page pipe }

def iput (ip : Nat) : State procs files fds :=
  { state with iputs := ip :: state.iputs }

/-! ## `file.c` and `pipe.c` -/

def filealloc : Option (Fin files × State procs files fds) :=
  ((List.finRange files).find? fun file => (state.ftable file).ref = 0).map fun file =>
    (file, state.setFile file { state.ftable file with ref := 1 })

def filedup (file : Fin files) : Except Panic (State procs files fds) :=
  if (state.ftable file).ref < 1 then
    .error .filedup
  else
    .ok (state.setFile file { state.ftable file with ref := (state.ftable file).ref + 1 })

def pipeclose (page : Nat) (writable : Bool) : Except Panic (State procs files fds) :=
  match state.page page with
  | none => .error .freedPipe
  | some pipe =>
    let pipe := if writable then { pipe with writeopen := false } else { pipe with readopen := false }
    if ¬pipe.readopen ∧ ¬pipe.writeopen then
      .ok { state.setPage page none with freed := pipe.number :: state.freed }
    else
      .ok (state.setPage page (some pipe))

def fileclose (file : Fin files) : Except Panic (State procs files fds) :=
  let entry := state.ftable file
  if entry.ref < 1 then
    .error .fileclose
  else if entry.ref - 1 > 0 then
    .ok (state.setFile file { entry with ref := entry.ref - 1 })
  else
    let state := state.setFile file { entry with ref := 0, type := .none }
    match entry.type with
    | .pipe => pipeclose state entry.pipe entry.writable
    | .inode | .device => .ok (iput state entry.ip)
    | .none => .ok state

/-- The pipe in a new page, and its two ends. -/
def State.makePipe (f0 f1 : Fin files) (page : Nat) : State procs files fds :=
  let state := { state.setPage page (some ⟨true, true, state.pipes⟩) with pipes := state.pipes + 1 }
  let state := state.setFile f0 { state.ftable f0 with
    type := .pipe, readable := true, writable := false, pipe := page }
  state.setFile f1 { state.ftable f1 with
    type := .pipe, readable := false, writable := true, pipe := page }

def filecloseAll (state : State procs files fds) : List (Fin files) →
    Except Panic (State procs files fds)
  | [] => .ok state
  | file :: rest => do
    let state ← fileclose state file
    filecloseAll state rest

/-- The page that `kalloc` returns, if any, is not in use. -/
def pipealloc (kalloc : Option Nat) :
    Except Panic (Option (Fin files × Fin files) × State procs files fds) :=
  match filealloc state with
  | none => .ok (none, state)
  | some (f0, state) =>
    match filealloc state with
    | none => do
      let state ← filecloseAll state [f0]
      .ok (none, state)
    | some (f1, state) =>
      match kalloc with
      | none => do
        let state ← filecloseAll state [f0, f1]
        .ok (none, state)
      | some page => .ok (some (f0, f1), state.makePipe f0 f1 page)

/-! ## `sysfile.c` -/

variable (process : Fin procs)

/-- Takes over the reference to the file. -/
def fdalloc (file : Fin files) : Option (Fin fds × State procs files fds) :=
  ((List.finRange fds).find? fun fd => state.ofile (process, fd) = none).map fun fd =>
    (fd, state.setOfile process fd (some file))

def argfd (fd : Int) : Option (Fin fds × Fin files) :=
  if inside : 0 ≤ fd ∧ fd < fds then
    let fd : Fin fds := ⟨fd.toNat, by omega⟩
    (state.ofile (process, fd)).map fun file => (fd, file)
  else
    none

def sysDup (fd : Int) : Except Panic (Int × State procs files fds) :=
  match argfd state process fd with
  | none => .ok (-1, state)
  | some (_, file) =>
    match fdalloc state process file with
    | none => .ok (-1, state)
    | some (copy, state) => do
      let state ← filedup state file
      .ok (copy, state)

def sysClose (fd : Int) : Except Panic (Int × State procs files fds) :=
  match argfd state process fd with
  | none => .ok (-1, state)
  | some (fd, file) => do
    let state ← fileclose (state.setOfile process fd none) file
    .ok (0, state)

/-- `lookup` is what `create` or `namei` returns. -/
def sysOpen (lookup : Option Inode) (omode : Nat) : Except Panic (Int × State procs files fds) :=
  match lookup with
  | none => .ok (-1, state)
  | some inode =>
    let ip := state.lookups
    let state := { state with lookups := state.lookups + 1 }
    if omode &&& O_CREATE = 0 ∧ inode.type = .directory ∧ omode ≠ O_RDONLY then
      .ok (-1, iput state ip)
    else if inode.type = .device ∧ (inode.major < 0 ∨ inode.major ≥ NDEV) then
      .ok (-1, iput state ip)
    else
      match filealloc state with
      | none => .ok (-1, iput state ip)
      | some (file, state) =>
        match fdalloc state process file with
        | none => do
          let state ← fileclose state file
          .ok (-1, iput state ip)
        | some (fd, state) =>
          let entry := state.ftable file
          let entry :=
            if inode.type = .device then { entry with type := .device, major := inode.major }
            else { entry with type := .inode, off := 0 }
          .ok (fd, state.setFile file { entry with
            ip
            readable := omode &&& O_WRONLY = 0
            writable := omode &&& O_WRONLY ≠ 0 ∨ omode &&& O_RDWR ≠ 0 })

/-- The descriptors that were made are cleared and both ends closed. -/
def pipeBad (clear : List (Fin fds))
    (rf wf : Fin files) : Except Panic (Int × State procs files fds) := do
  let state := clear.foldl (fun state fd => state.setOfile process fd none) state
  let state ← filecloseAll state [rf, wf]
  .ok (-1, state)

/-- `copied` says whether both numbers can be copied out. -/
def sysPipe (kalloc : Option Nat) (copied : Bool) : Except Panic (Int × State procs files fds) := do
  let (ends, state) ← pipealloc state kalloc
  match ends with
  | none => .ok (-1, state)
  | some (rf, wf) =>
    match fdalloc state process rf with
    | none => pipeBad state process [] rf wf
    | some (fd0, state) =>
      match fdalloc state process wf with
      | none => pipeBad state process [fd0] rf wf
      | some (fd1, state) =>
        if copied then .ok (0, state) else pipeBad state process [fd0, fd1] rf wf

/-! ## `proc.c` -/

/-- The loop of `fork`. -/
def dupFiles (process child : Fin procs) :
    List (Fin fds) → State procs files fds → Except Panic (State procs files fds)
  | [], state => .ok state
  | fd :: rest, state =>
    match state.ofile (process, fd) with
    | none => dupFiles process child rest state
    | some file => do
      let state ← filedup state file
      dupFiles process child rest (state.setOfile child fd (some file))

/-- `fork` with the free slot `child`, unless memory runs out. -/
def fork (process child : Fin procs) (allocated : Bool) : Except Panic (State procs files fds) :=
  if allocated then
    dupFiles process child (List.finRange fds)
      { state with live := overwrite state.live child true }
  else
    .ok state

/-- The loop of `exit`. -/
def closeFiles (process : Fin procs) : List (Fin fds) → State procs files fds → Except Panic (State procs files fds)
  | [], state => .ok state
  | fd :: rest, state =>
    match state.ofile (process, fd) with
    | none => closeFiles process rest state
    | some file => do
      let state ← fileclose state file
      closeFiles process rest (state.setOfile process fd none)

def exit : Except Panic (State procs files fds) :=
  if process = state.initproc then
    .error .initExiting
  else do
    let state ← closeFiles process (List.finRange fds) state
    .ok { state with live := overwrite state.live process false }

/-! ## Sequences of calls -/

inductive Call (procs : Nat) where
  | open (lookup : Option Inode) (omode : Nat)
  | dup (fd : Int)
  | pipe (kalloc : Option Nat) (copied : Bool)
  | close (fd : Int)
  | fork (child : Fin procs) (allocated : Bool)
  | exit

def syscall : Call procs → Except Panic (State procs files fds)
  | .open lookup omode => (sysOpen state process lookup omode).map Prod.snd
  | .dup fd => (sysDup state process fd).map Prod.snd
  | .pipe kalloc copied => (sysPipe state process kalloc copied).map Prod.snd
  | .close fd => (sysClose state process fd).map Prod.snd
  | .fork child allocated => fork state process child allocated
  | .exit => exit state process

/-- `fork` gets a free slot and `kalloc` a free page. -/
def Call.possible : Call procs → Bool
  | .fork child _ => !state.live child
  | .pipe (some page) _ => (state.page page).isNone
  | _ => true

/-- A call that panics leaves the state before it, with the reason. -/
def step (event : Fin procs × Call procs) : Option (State procs files fds) :=
  if state.panic.isNone ∧ state.live event.1 ∧ event.2.possible state then
    match syscall state event.1 event.2 with
    | .ok after => some after
    | .error reason => some { state with panic := some reason }
  else
    none

end

/-- One process without open files. -/
def machine (procs files fds : Nat) : Machine (State procs files fds) (Fin procs × Call procs) where
  initial state :=
    (∃ process, ∀ other, state.live other = decide (other = process)) ∧
    (∀ place, state.ofile place = none) ∧ (∀ file, (state.ftable file).ref = 0) ∧
    (∀ file, (state.ftable file).type = .none) ∧ (∀ page, state.page page = none) ∧
    state.pipes = 0 ∧ state.freed = [] ∧ state.lookups = 0 ∧ state.iputs = [] ∧ state.panic = none
  step := step

end Xv6.Ftable
