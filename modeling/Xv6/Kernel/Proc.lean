import Xv6.Fs.Inode
import Xv6.Vm.PageTable

namespace Xv6.Kernel

open Xv6.Data Xv6.Vm

/-! # Processes and their memory

`proc.c` as far as memory goes; each call runs to its end.  Open files and the current
directory of a process stand in the state of the file system.
-/

/-- The fields of a `struct proc` that `growproc` and `exec` use. -/
structure Proc where
  sz : Word
  pagetable : Word
  trapframe : Word
  name : Bytes

/-- The panics of the memory code and those of the file system. -/
inductive Panic where
  | vm (reason : Vm.Panic)
  | fs (reason : Fs.Panic)
deriving DecidableEq, Repr

section

variable {Value : Type}

def liftVm : Except Vm.Panic Value → Except Panic Value
  | .ok value => .ok value
  | .error reason => .error (.vm reason)

def liftFs : Except Fs.Panic Value → Except Panic Value
  | .ok value => .ok value
  | .error reason => .error (.fs reason)

@[simp]
theorem liftVm_ok (value : Value) : liftVm (.ok value) = .ok value := rfl

@[simp]
theorem liftFs_ok (value : Value) : liftFs (.ok value) = .ok value := rfl

end

/-! ## growproc -/

/-- Sizes are computed in a `uint`. -/
def growproc (layout : Layout) (n : BitVec 32) (proc : Proc) (phys : Phys) :
    Except Vm.Panic (Int × Proc × Phys) :=
  let sz : BitVec 32 := proc.sz.setWidth 32
  if n.toInt > 0 then do
    let (result, phys) ← uvmalloc layout proc.pagetable (sz.setWidth 64) ((sz + n).setWidth 64) phys
    let sz : BitVec 32 := result.setWidth 32
    if sz = 0 then
      .ok (-1, proc, phys)
    else
      .ok (0, { proc with sz := sz.setWidth 64 }, phys)
  else if n.toInt < 0 then do
    let (result, phys) ← uvmdealloc layout proc.pagetable (sz.setWidth 64) ((sz + n).setWidth 64) phys
    let sz : BitVec 32 := result.setWidth 32
    .ok (0, { proc with sz := sz.setWidth 64 }, phys)
  else
    .ok (0, { proc with sz := sz.setWidth 64 }, phys)

/-- `sys_sbrk`, whose old size goes through an `int`. -/
def sysSbrk (layout : Layout) (n : BitVec 32) (proc : Proc) (phys : Phys) :
    Except Vm.Panic (Word × Proc × Phys) := do
  let addr : BitVec 32 := proc.sz.setWidth 32
  let (result, proc, phys) ← growproc layout n proc phys
  if result < 0 then
    .ok (-1, proc, phys)
  else
    .ok (addr.signExtend 64, proc, phys)

end Xv6.Kernel
