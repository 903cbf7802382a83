import Mathlib.Init

namespace Xv6

/-! The kernel's compile-time constants: `param.h`, `fs.h`, `fcntl.h`, `memlayout.h` and `riscv.h`, and
enumerations that more than one module uses. -/

/-- Max blocks any file-system operation writes. -/
def MAXOPBLOCKS : Nat := 10

/-- Max data blocks in the on-disk log. -/
def LOGSIZE : Nat := MAXOPBLOCKS * 3

/-- Size of the file system in blocks. -/
def FSSIZE : Nat := 1000

/-- Block size in bytes. -/
def BSIZE : Nat := 1024

/-- Bytes per page. -/
def PGSIZE : Nat := 4096

/-- Where RAM starts and where the kernel stops using it. -/
def KERNBASE : Nat := 0x80000000

def PHYSTOP : Nat := KERNBASE + 128 * 1024 * 1024

/-- Maximum major device number. -/
def NDEV : Nat := 10

def O_RDONLY : Nat := 0x000

def O_WRONLY : Nat := 0x001

def O_RDWR : Nat := 0x002

def O_CREATE : Nat := 0x200

def O_TRUNC : Nat := 0x400

/-- What a `struct file` stands for. -/
inductive FileType where
  | none
  | pipe
  | inode
  | device
deriving DecidableEq, Repr

inductive ProcState where
  | unused
  | used
  | sleeping
  | runnable
  | running
  | zombie
deriving DecidableEq, Repr

/-- In use and without a result. -/
def ProcState.active : ProcState → Bool
  | .unused | .zombie => false
  | _ => true

/-- Not free and not being made. -/
def ProcState.started : ProcState → Bool
  | .unused | .used => false
  | _ => true

/-- Neither free, nor being made, nor a zombie. -/
def ProcState.live : ProcState → Bool
  | .runnable | .running | .sleeping => true
  | .unused | .used | .zombie => false

end Xv6
