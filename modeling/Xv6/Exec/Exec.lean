import Xv6.Fs.Sysfile
import Xv6.Kernel.Proc
import Xv6.Vm.Copy

namespace Xv6.Exec

open Xv6.Data Xv6.Vm Xv6.Kernel
open Xv6.Fs (NINODE Store Superblock uadd slash)

/-! # exec

`exec.c`.  The locks of inodes are left out, and of the log there is the count of
operations under way.
-/

def MAXARG : Nat := 32

def ELF_MAGIC : BitVec 32 := 0x464C457F

def ELF_PROG_LOAD : BitVec 32 := 1

/-- The sizes of the two headers. -/
def elfSize : Nat := 64

def phSize : Nat := 56

/-- What `exec` works on: the memory, the file system, `log.outstanding` and the process. -/
structure State where
  phys : Phys
  fs : Store
  outstanding : Nat
  proc : Proc

/-! ## Headers -/

/-- A little-endian field of a header. -/
def field (data : List UInt8) (offset width : Nat) : Nat := Bytes.load (data.getD · 0) offset width

/-- The fields of `struct elfhdr` that `exec` reads. -/
structure Elfhdr where
  magic : BitVec 32
  entry : Word
  phoff : Word
  phnum : BitVec 16
deriving DecidableEq

def Elfhdr.ofBytes (data : List UInt8) : Elfhdr where
  magic := .ofNat 32 (field data 0 4)
  entry := .ofNat 64 (field data 24 8)
  phoff := .ofNat 64 (field data 32 8)
  phnum := .ofNat 16 (field data 56 2)

/-- The fields of `struct proghdr` that `exec` reads. -/
structure Proghdr where
  type : BitVec 32
  off : Word
  vaddr : Word
  filesz : Word
  memsz : Word
deriving DecidableEq

def Proghdr.ofBytes (data : List UInt8) : Proghdr where
  type := .ofNat 32 (field data 0 4)
  off := .ofNat 64 (field data 8 8)
  vaddr := .ofNat 64 (field data 16 8)
  filesz := .ofNat 64 (field data 32 8)
  memsz := .ofNat 64 (field data 40 8)

/-! ## Strings -/

/-- The loop of `safestrcpy` with this much room after position `at`. -/
def safestrcpyLoop (t : List UInt8) : Nat → Nat → Bytes → Bytes
  | 0, index, s => overwrite s index 0
  | n + 1, index, s =>
    let s := overwrite s index (t.getD index 0)
    if t.getD index 0 ≠ 0 then
      safestrcpyLoop t n (index + 1) s
    else
      overwrite s (index + 1) 0

def safestrcpy (s : Bytes) (t : List UInt8) (n : Nat) : Bytes :=
  if n = 0 then s else safestrcpyLoop t (n - 1) 0 s

/-- What follows the last slash of a path. -/
def lastElement (last : List UInt8) : List UInt8 → List UInt8
  | [] => last
  | c :: s => lastElement (if c = slash then s else last) s

section

variable (layout : Layout) (sb : Superblock)

/-! ## Loading -/

/-- `readi` into kernel memory. -/
def readInode (fs : Store) (ip : Fin NINODE) (off n : Nat) : Except Kernel.Panic (Int × List UInt8 × Store) := do
  let (count, data, copy, disk) ← liftFs (Fs.readi sb fs.disk (fs.itable ip).copy (fun _ => true) off n)
  .ok (count, data, fs.put ip copy disk)

/-- The loop of `loadseg`.  Its `uint` counter does not come back to zero: the pages up to there
would be more frames than the RAM has. -/
def loadsegLoop (pagetable va : Word) (ip : Fin NINODE) (offset sz : Nat) : Nat → Nat → Phys → Store →
    Except Kernel.Panic (Int × Phys × Store)
  | 0, _, phys, fs => .ok (0, phys, fs)
  | rounds + 1, i, phys, fs => do
    let pa ← liftVm (walkaddr phys.mem pagetable (va + BitVec.ofNat 64 i))
    if pa = 0 then
      .error (.vm .loadseg)
    else
      let n := if sz - i < PGSIZE then sz - i else PGSIZE
      let (count, data, fs) ← readInode sb fs ip (uadd offset i) n
      let phys := phys.put pa (blit (phys.mem pa) 0 (data.getD · 0) 0 data.length)
      if count ≠ n then
        .ok (-1, phys, fs)
      else
        loadsegLoop pagetable va ip offset sz rounds (i + PGSIZE) phys fs

/-- `offset` and `sz` are `uint`s. -/
def loadseg (pagetable va : Word) (ip : Fin NINODE) (offset sz : BitVec 32) (phys : Phys) (fs : Store) :
    Except Kernel.Panic (Int × Phys × Store) :=
  loadsegLoop sb pagetable va ip offset.toNat sz.toNat ((sz.toNat + (PGSIZE - 1)) / PGSIZE) 0 phys fs

/-- The loop of `exec` over the program headers, with this many to come; `off` is an `int`.
The result is false for a jump to `bad`. -/
def loadSegments (pagetable : Word) (ip : Fin NINODE) : Nat → BitVec 32 → Word → Phys → Store →
    Except Kernel.Panic (Bool × Word × Phys × Store)
  | 0, _, sz, phys, fs => .ok (true, sz, phys, fs)
  | more + 1, off, sz, phys, fs => do
    let (count, data, fs) ← readInode sb fs ip off.toNat phSize
    let ph := Proghdr.ofBytes data
    if count ≠ phSize then
      .ok (false, sz, phys, fs)
    else if ph.type ≠ ELF_PROG_LOAD then
      loadSegments pagetable ip more (off + BitVec.ofNat 32 phSize) sz phys fs
    else if ph.memsz < ph.filesz then
      .ok (false, sz, phys, fs)
    else if ph.vaddr + ph.memsz < ph.vaddr then
      .ok (false, sz, phys, fs)
    else
      let (sz1, phys) ← liftVm (uvmalloc layout pagetable sz (ph.vaddr + ph.memsz) phys)
      if sz1 = 0 then
        .ok (false, sz, phys, fs)
      else if ph.vaddr.toNat % PGSIZE ≠ 0 then
        .ok (false, sz1, phys, fs)
      else
        let (result, phys, fs) ←
          loadseg sb pagetable ph.vaddr ip (ph.off.setWidth 32) (ph.filesz.setWidth 32) phys fs
        if result < 0 then
          .ok (false, sz1, phys, fs)
        else
          loadSegments pagetable ip more (off + BitVec.ofNat 32 phSize) sz1 phys fs

/-- What happens at the label `bad` before -1 is returned. -/
def bad (pagetable sz : Word) (ip : Option (Fin NINODE)) (state : State) : Except Kernel.Panic State := do
  let phys ← if pagetable ≠ 0 then liftVm (procFreepagetable layout pagetable sz state.phys)
    else .ok state.phys
  match ip with
  | none => .ok { state with phys }
  | some ip =>
    let fs ← liftFs (Fs.iput sb state.fs ip)
    .ok { state with phys, fs, outstanding := state.outstanding - 1 }

/-- From the check of the ELF header to the second `end_op`, with the locked inode: the page table,
its size and the entry point, or none for a jump to `bad`. -/
def execInode (ip : Fin NINODE) (state : State) :
    Except Kernel.Panic (Option (Word × Word × Word) × State) := do
  let (count, data, fs) ← readInode sb state.fs ip 0 elfSize
  let elf := Elfhdr.ofBytes data
  let state := { state with fs }
  if count ≠ elfSize then
    let state ← bad layout sb 0 0 (some ip) state
    .ok (none, state)
  else if elf.magic ≠ ELF_MAGIC then
    let state ← bad layout sb 0 0 (some ip) state
    .ok (none, state)
  else
    let (pagetable, phys) ← liftVm (procPagetable layout state.proc.trapframe state.phys)
    if pagetable = 0 then
      let state ← bad layout sb 0 0 (some ip) { state with phys }
      .ok (none, state)
    else
      let (loaded, sz, phys, fs) ←
        loadSegments layout sb pagetable ip elf.phnum.toNat (elf.phoff.setWidth 32) 0 phys state.fs
      let state := { state with phys, fs }
      if loaded then
        let fs ← liftFs (Fs.iput sb state.fs ip)
        .ok (some (pagetable, sz, elf.entry), { state with fs, outstanding := state.outstanding - 1 })
      else
        let state ← bad layout sb pagetable sz (some ip) state
        .ok (none, state)

/-- From `begin_op` to `end_op`. -/
def execLoad (cwd : Fin NINODE) (path : List UInt8) (state : State) :
    Except Kernel.Panic (Option (Word × Word × Word) × State) := do
  let state := { state with outstanding := state.outstanding + 1 }
  let (found, fs) ← liftFs (Fs.namex sb state.fs cwd path false)
  match found with
  | none => .ok (none, { state with fs, outstanding := state.outstanding - 1 })
  | some (ip, _) =>
    let fs ← liftFs (Fs.ilock sb fs ip)
    execInode layout sb ip { state with fs }

/-! ## The stack -/

/-- Push the argument strings; the result is false for a jump to `bad`. -/
def pushStrings (pagetable stackbase : Word) : List (List UInt8) → Nat → Word → List Word → Memory →
    Except Vm.Panic (Bool × Word × List Word × Memory)
  | [], _, sp, ustack, mem => .ok (true, sp, ustack, mem)
  | arg :: argv, argc, sp, ustack, mem =>
    if argc ≥ MAXARG then
      .ok (false, sp, ustack, mem)
    else
      let size : Word := BitVec.ofNat 64 (arg.length + 1)
      let sp := sp - size
      let sp := sp - sp % 16
      if sp < stackbase then
        .ok (false, sp, ustack, mem)
      else do
        let (result, mem) ← copyout mem pagetable sp (arg.getD · 0) size
        if result < 0 then
          .ok (false, sp, ustack, mem)
        else
          pushStrings pagetable stackbase argv (argc + 1) sp (ustack ++ [sp]) mem

/-- The bytes of an array of words. -/
def wordBytes (words : List Word) (index : Nat) : UInt8 :=
  UInt8.ofNat ((words.getD (index / 8) 0).toNat / 256 ^ (index % 8))

/-- The strings and then the array of pointers to them. -/
def pushArgs (pagetable stackbase : Word) (argv : List (List UInt8)) (sp : Word) (mem : Memory) :
    Except Vm.Panic (Bool × Word × Memory) := do
  let (pushed, sp, ustack, mem) ← pushStrings pagetable stackbase argv 0 sp [] mem
  if pushed then
    let size : Word := BitVec.ofNat 64 ((argv.length + 1) * 8)
    let sp := sp - size
    let sp := sp - sp % 16
    if sp < stackbase then
      .ok (false, sp, mem)
    else
      let (result, mem) ← copyout mem pagetable sp (wordBytes (ustack ++ [0])) size
      .ok (decide (0 ≤ result), sp, mem)
  else
    .ok (false, sp, mem)

/-- From `p->trapframe->a1 = sp` on.  `a1`, `epc` and `sp` are words 15, 3 and 6 of the trapframe. -/
def commit (pagetable sz sp entry : Word) (path : List UInt8) (argc : Nat) (state : State) :
    Except Kernel.Panic (Int × State) := do
  let proc := state.proc
  let frame := setWord (state.phys.mem proc.trapframe) 15 sp
  let name := safestrcpy proc.name (lastElement path path) 16
  let phys := state.phys.put proc.trapframe (setWord (setWord frame 3 entry) 6 sp)
  let phys ← liftVm (procFreepagetable layout proc.pagetable proc.sz phys)
  .ok (argc, { state with phys, proc := { proc with name, pagetable, sz } })

/-- From the allocation of the stack on. -/
def execStack (pagetable sz entry : Word) (path : List UInt8) (argv : List (List UInt8)) (state : State) :
    Except Kernel.Panic (Int × State) := do
  let sz := PGROUNDUP sz
  let (sz1, phys) ← liftVm (uvmalloc layout pagetable sz (sz + 2 * pageBytes) state.phys)
  if sz1 = 0 then
    let state ← bad layout sb pagetable sz none { state with phys }
    .ok (-1, state)
  else
    let phys ← liftVm (uvmclear pagetable (sz1 - 2 * pageBytes) phys)
    let (pushed, sp, mem) ← liftVm (pushArgs pagetable (sz1 - pageBytes) argv sz1 phys.mem)
    let state := { state with phys := { phys with mem } }
    if pushed then
      commit layout pagetable sz1 sp entry path argv.length state
    else
      let state ← bad layout sb pagetable sz1 none state
      .ok (-1, state)

/-- `argv` holds the strings without their terminating zeros. -/
def exec (cwd : Fin NINODE) (path : List UInt8) (argv : List (List UInt8)) (state : State) :
    Except Kernel.Panic (Int × State) := do
  let (loaded, state) ← execLoad layout sb cwd path state
  match loaded with
  | none => .ok (-1, state)
  | some (pagetable, sz, entry) => execStack layout sb pagetable sz entry path argv state

end

end Xv6.Exec
