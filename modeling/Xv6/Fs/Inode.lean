import Xv6.Fs.Layout
import Xv6.Transition.Run

namespace Xv6.Fs

open Xv6.Data Xv6.Log Xv6.Transition

/-! # Blocks, inodes and their contents

`fs.c` from `balloc` to `dirlink`, one call at a time.  A call that panics returns
the panic; a user address that cannot be read or written is part of the call.
-/

inductive Panic where
  /-- "balloc: out of blocks" -/
  | outOfBlocks
  /-- "freeing free block" -/
  | freeingFreeBlock
  /-- "ialloc: no inodes" -/
  | noFreeInode
  /-- "iget: no inodes" -/
  | noInodeSlot
  /-- "ilock" -/
  | ilock
  /-- "ilock: no type" -/
  | noType
  /-- "bmap: out of range" -/
  | outOfRange
  /-- "dirlookup not DIR" -/
  | notDir
  /-- "dirlookup read" -/
  | lookupRead
  /-- "dirlink read" -/
  | linkRead
  /-- "dirlink" -/
  | linkWrite
deriving DecidableEq, Repr

def NINODE : Nat := 50

def DIRSIZ : Nat := 14

/-- The size of `struct dirent`. -/
def direntSize : Nat := 16

def T_DIR : Nat := 1

/-- Addition of `uint`s. -/
def uadd (left right : Nat) : Nat := (left + right) % 2 ^ 32

variable (sb : Superblock)

/-! ## Blocks -/

def bzero (disk : Disk) (block : Nat) : Disk := overwrite disk block fun _ => 0

/-- Allocate a zeroed disk block: the first one whose bit is clear. -/
def balloc (disk : Disk) : Except Panic (Nat × Disk) :=
  match (List.range sb.size).find? fun block => !bit sb disk block with
  | some block => .ok (block, bzero (setBit sb disk block) block)
  | none => .error .outOfBlocks

def bfree (disk : Disk) (block : Nat) : Except Panic Disk :=
  if bit sb disk block then .ok (clearBit sb disk block) else .error .freeingFreeBlock

/-! ## Inode content -/

/-- The address in `ip->addrs[index]`, allocating if necessary. -/
def addrAlloc (disk : Disk) (ip : Dinode) (index : Fin (NDIRECT + 1)) :
    Except Panic (Nat × Dinode × Disk) :=
  if ip.addrs index = 0 then do
    let (addr, disk) ← balloc sb disk
    .ok (addr, ip.setAddr index addr, disk)
  else
    .ok (ip.addrs index, ip, disk)

/-- The disk block address of the `bn`th block of an inode, allocating if necessary. -/
def bmap (disk : Disk) (ip : Dinode) (bn : Nat) : Except Panic (Nat × Dinode × Disk) :=
  if direct : bn < NDIRECT then
    addrAlloc sb disk ip ⟨bn, Nat.lt_succ_of_lt direct⟩
  else if bn - NDIRECT < NINDIRECT then do
    let (indirect, ip, disk) ← addrAlloc sb disk ip (Fin.last NDIRECT)
    if word disk indirect (bn - NDIRECT) = 0 then do
      let (addr, disk) ← balloc sb disk
      .ok (addr, ip, putWord disk indirect (bn - NDIRECT) addr)
    else
      .ok (word disk indirect (bn - NDIRECT), ip, disk)
  else
    .error .outOfRange

def iupdate (disk : Disk) (inum : Nat) (ip : Dinode) : Disk := putDinode sb disk inum ip

/-- The loop over the direct blocks in `itrunc`. -/
def bfreeAddrs (disk : Disk) : List Nat → Except Panic Disk
  | [] => .ok disk
  | addr :: rest =>
    if addr = 0 then
      bfreeAddrs disk rest
    else do
      let disk ← bfree sb disk addr
      bfreeAddrs disk rest

/-- The loop over the entries of the indirect block in `itrunc`. -/
def bfreeWords (disk : Disk) (indirect : Nat) : List Nat → Except Panic Disk
  | [] => .ok disk
  | index :: rest =>
    if word disk indirect index = 0 then
      bfreeWords disk indirect rest
    else do
      let disk ← bfree sb disk (word disk indirect index)
      bfreeWords disk indirect rest

/-- The second half of `itrunc`: the indirect block and what it lists. -/
def bfreeIndirect (disk : Disk) (indirect : Nat) : Except Panic Disk :=
  if indirect = 0 then
    .ok disk
  else do
    let disk ← bfreeWords sb disk indirect (List.range NINDIRECT)
    bfree sb disk indirect

def itrunc (disk : Disk) (inum : Nat) (ip : Dinode) : Except Panic (Dinode × Disk) := do
  let disk ← bfreeAddrs sb disk ((List.finRange NDIRECT).map fun index => ip.addrs index.castSucc)
  let disk ← bfreeIndirect sb disk (ip.addrs (Fin.last NDIRECT))
  .ok (ip.truncated, iupdate sb disk inum ip.truncated)

/-- The loop of `readi`; `writable` says which bytes of the destination `copyout` can reach. -/
def readiLoop (writable : Nat → Bool) : Nat → Disk → Dinode → Nat → Nat → Nat → List UInt8 →
    Except Panic (Int × List UInt8 × Dinode × Disk)
  | 0, disk, ip, _, tot, _, data => .ok (tot, data, ip, disk)
  | fuel + 1, disk, ip, off, tot, n, data =>
    if tot < n then do
      let (addr, ip, disk) ← bmap sb disk ip (off / BSIZE)
      let m := min (n - tot) (BSIZE - off % BSIZE)
      if (List.range m).all fun index => writable (tot + index) then
        readiLoop writable fuel disk ip (off + m) (tot + m) n
          (data ++ (List.range m).map fun index => disk addr (off % BSIZE + index))
      else
        .ok (-1, data, ip, disk)
    else
      .ok (tot, data, ip, disk)

def readi (disk : Disk) (ip : Dinode) (writable : Nat → Bool) (off n : Nat) :
    Except Panic (Int × List UInt8 × Dinode × Disk) :=
  if off > ip.size ∨ uadd off n < off then
    .ok (0, [], ip, disk)
  else
    let n := if uadd off n > ip.size then ip.size - off else n
    readiLoop sb writable n disk ip off 0 n []

/-- `either_copyin`: copies up to the first byte of the source that cannot be read. -/
def copyin (source : Nat → Option UInt8) : Bytes → Nat → Nat → Nat → Bytes × Bool
  | bytes, _, _, 0 => (bytes, true)
  | bytes, offset, start, m + 1 =>
    match source start with
    | none => (bytes, false)
    | some value => copyin source (overwrite bytes offset value) (offset + 1) (start + 1) m

/-- The loop of `writei`, up to the final values of `off` and `tot`. -/
def writeiLoop (source : Nat → Option UInt8) : Nat → Disk → Dinode → Nat → Nat → Nat →
    Except Panic (Nat × Nat × Dinode × Disk)
  | 0, disk, ip, off, tot, _ => .ok (off, tot, ip, disk)
  | fuel + 1, disk, ip, off, tot, n =>
    if tot < n then do
      let (addr, ip, disk) ← bmap sb disk ip (off / BSIZE)
      let m := min (n - tot) (BSIZE - off % BSIZE)
      let (bytes, copied) := copyin source (disk addr) (off % BSIZE) tot m
      if copied then
        writeiLoop source fuel (overwrite disk addr bytes) ip (off + m) (tot + m) n
      else
        .ok (off, tot, ip, overwrite disk addr bytes)
    else
      .ok (off, tot, ip, disk)

def writei (disk : Disk) (inum : Nat) (ip : Dinode) (source : Nat → Option UInt8) (off n : Nat) :
    Except Panic (Int × Dinode × Disk) :=
  if off > ip.size ∨ uadd off n < off then
    .ok (-1, ip, disk)
  else if uadd off n > MAXFILE * BSIZE then
    .ok (-1, ip, disk)
  else do
    let (off, tot, ip, disk) ← writeiLoop sb source n disk ip off 0 n
    let ip := if off > ip.size then { ip with size := off } else ip
    .ok (tot, ip, iupdate sb disk inum ip)

/-! ## The inode table -/

/-- A `struct inode`: `ref`, `valid` and the copy of the disk inode. -/
structure Inode where
  inum : Nat
  ref : Nat
  valid : Bool
  copy : Dinode

structure Store where
  disk : Disk
  itable : Fin NINODE → Inode

def Store.set (fs : Store) (slot : Fin NINODE) (inode : Inode) : Store :=
  { fs with itable := overwrite fs.itable slot inode }

/-- A locked inode and the disk after an operation on it. -/
def Store.put (fs : Store) (slot : Fin NINODE) (ip : Dinode) (disk : Disk) : Store :=
  { disk, itable := overwrite fs.itable slot { fs.itable slot with copy := ip } }

def iget (fs : Store) (inum : Nat) : Except Panic (Fin NINODE × Store) :=
  match (List.finRange NINODE).find? fun slot =>
      (fs.itable slot).ref > 0 ∧ (fs.itable slot).inum = inum with
  | some slot =>
    .ok (slot, fs.set slot { fs.itable slot with ref := (fs.itable slot).ref + 1 })
  | none =>
    match (List.finRange NINODE).find? fun slot => (fs.itable slot).ref = 0 with
    | none => .error .noInodeSlot
    | some slot =>
      .ok (slot, fs.set slot ⟨inum, 1, false, (fs.itable slot).copy⟩)

def idup (fs : Store) (slot : Fin NINODE) : Store :=
  fs.set slot { fs.itable slot with ref := (fs.itable slot).ref + 1 }

def ilock (fs : Store) (slot : Fin NINODE) : Except Panic Store :=
  let inode := fs.itable slot
  if inode.ref < 1 then
    .error .ilock
  else if inode.valid then
    .ok fs
  else
    let copy := dinode sb fs.disk inode.inum
    if copy.type = 0 then
      .error .noType
    else
      .ok (fs.set slot { inode with copy, valid := true })

def iput (fs : Store) (slot : Fin NINODE) : Except Panic Store :=
  let inode := fs.itable slot
  if inode.ref = 1 ∧ inode.valid ∧ inode.copy.nlink = 0 then do
    let (ip, disk) ← itrunc sb fs.disk inode.inum inode.copy
    let ip := { ip with type := 0 }
    .ok ({ fs with disk := iupdate sb disk inode.inum ip }.set slot
      { inode with copy := ip, valid := false, ref := inode.ref - 1 })
  else
    .ok (fs.set slot { inode with ref := inode.ref - 1 })

def freshDinode (type : Nat) : Dinode := ⟨type, 0, 0, 0, 0, fun _ => 0⟩

def ialloc (fs : Store) (type : Nat) : Except Panic (Fin NINODE × Store) :=
  match (List.range' 1 (sb.ninodes - 1)).find? fun inum => (dinode sb fs.disk inum).type = 0 with
  | none => .error .noFreeInode
  | some inum => iget { fs with disk := putDinode sb fs.disk inum (freshDinode type) } inum

/-! ## Directories -/

/-- `strncmp(s, t, n) == 0`. -/
def sameName (left right : Nat → UInt8) : Nat → Nat → Bool
  | _, 0 => true
  | index, n + 1 =>
    if left index = 0 ∨ left index ≠ right index then
      left index = right index
    else
      sameName left right (index + 1) n

/-- `strncpy`: the name up to its first zero, padded with zeros. -/
def paddedName (name : Nat → UInt8) (index : Nat) : UInt8 :=
  if (List.range index).all fun earlier => name earlier ≠ 0 then name index else 0

/-- The bytes of a `struct dirent`. -/
def dirent (inum : Nat) (name : Nat → UInt8) (index : Nat) : Option UInt8 :=
  if index < 2 then
    some (UInt8.ofNat (inum / 256 ^ index))
  else
    some (paddedName name (index - 2))

def direntInum (data : List UInt8) : Nat := (data.getD 0 0).toNat + 256 * (data.getD 1 0).toNat

/-- The loop of `dirlookup` from offset `off` on: the entry found, and where. -/
def dirlookupFrom (name : Nat → UInt8) : Nat → Disk → Dinode → Nat →
    Except Panic (Option (Nat × Nat) × Dinode × Disk)
  | 0, disk, dp, _ => .ok (none, dp, disk)
  | fuel + 1, disk, dp, off =>
    if off < dp.size then do
      let (count, data, dp, disk) ← readi sb disk dp (fun _ => true) off direntSize
      if count ≠ direntSize then
        .error .lookupRead
      else if direntInum data = 0 then
        dirlookupFrom name fuel disk dp (off + direntSize)
      else if sameName name (fun index => data.getD (index + 2) 0) 0 DIRSIZ then
        .ok (some (direntInum data, off), dp, disk)
      else
        dirlookupFrom name fuel disk dp (off + direntSize)
    else
      .ok (none, dp, disk)

/-- What `dirlookup` does before it calls `iget`. -/
def dirsearch (disk : Disk) (dp : Dinode) (name : Nat → UInt8) :
    Except Panic (Option (Nat × Nat) × Dinode × Disk) :=
  if dp.type ≠ T_DIR then .error .notDir else dirlookupFrom sb name dp.size disk dp 0

/-- The inode of an entry of the locked directory `dp`, and the offset of the entry. -/
def dirlookup (fs : Store) (dp : Fin NINODE) (name : Nat → UInt8) :
    Except Panic (Option (Fin NINODE × Nat) × Store) := do
  let (found, copy, disk) ← dirsearch sb fs.disk (fs.itable dp).copy name
  match found with
  | none => .ok (none, fs.put dp copy disk)
  | some (inum, off) =>
    let (ip, fs) ← iget (fs.put dp copy disk) inum
    .ok (some (ip, off), fs)

/-- The search of `dirlink` for an empty entry, from offset `off` on. -/
def emptyDirent : Nat → Disk → Dinode → Nat → Except Panic (Nat × Dinode × Disk)
  | 0, disk, dp, off => .ok (off, dp, disk)
  | fuel + 1, disk, dp, off =>
    if off < dp.size then do
      let (count, data, dp, disk) ← readi sb disk dp (fun _ => true) off direntSize
      if count ≠ direntSize then
        .error .linkRead
      else if direntInum data = 0 then
        .ok (off, dp, disk)
      else
        emptyDirent fuel disk dp (off + direntSize)
    else
      .ok (off, dp, disk)

/-- The second part of `dirlink`: the name is not there yet. -/
def dirwrite (fs : Store) (dp : Fin NINODE) (name : Nat → UInt8) (inum : Nat) :
    Except Panic (Int × Store) := do
  let (off, copy, disk) ← emptyDirent sb (fs.itable dp).copy.size fs.disk (fs.itable dp).copy 0
  let (count, copy, disk) ← writei sb disk (fs.itable dp).inum copy (dirent inum name) off direntSize
  if count ≠ direntSize then
    .error .linkWrite
  else
    .ok (0, fs.put dp copy disk)

/-- Write a new directory entry into the directory `dp`. -/
def dirlink (fs : Store) (dp : Fin NINODE) (name : Nat → UInt8) (inum : Nat) :
    Except Panic (Int × Store) := do
  let (present, fs) ← dirlookup sb fs dp name
  match present with
  | some (ip, _) =>
    let fs ← iput sb fs ip
    .ok (-1, fs)
  | none => dirwrite sb fs dp name inum

/-! ## Sequences of operations -/

structure State where
  fs : Store
  panic : Option Panic

inductive Event where
  | iget (inum : Nat)
  | idup (slot : Fin NINODE)
  | ilock (slot : Fin NINODE)
  | ialloc (type : Nat)
  | readi (slot : Fin NINODE) (writable : Nat → Bool) (off n : Nat)
  | writei (slot : Fin NINODE) (source : Nat → Option UInt8) (off n : Nat)
  | itrunc (slot : Fin NINODE)
  | dirlink (slot : Fin NINODE) (name : Nat → UInt8) (inum : Nat)
  | iput (slot : Fin NINODE)
  /-- `create`, `link` and `unlink` change these fields of a locked inode and call `iupdate`. -/
  | setLinks (slot : Fin NINODE) (major minor nlink : Nat)

/-- What the callers in `sysfile.c`, `file.c` and `exec.c` see to: they hold a reference
to the inode, and have locked it for any operation on its contents. -/
def permitted (fs : Store) : Event → Prop
  | .iget inum => inum < sb.ninodes
  | .idup slot | .ilock slot | .iput slot => (fs.itable slot).ref > 0
  | .ialloc type => 0 < type ∧ type < 2 ^ 16
  | .readi slot _ off n | .writei slot _ off n =>
    (fs.itable slot).ref > 0 ∧ (fs.itable slot).valid = true ∧ off < 2 ^ 32 ∧ n < 2 ^ 32
  | .itrunc slot | .dirlink slot _ _ => (fs.itable slot).ref > 0 ∧ (fs.itable slot).valid = true
  | .setLinks slot major minor nlink => (fs.itable slot).ref > 0 ∧ (fs.itable slot).valid = true ∧
      major < 2 ^ 16 ∧ minor < 2 ^ 16 ∧ nlink < 2 ^ 16

instance (fs : Store) : (event : Event) → Decidable (permitted sb fs event)
  | .iget _ | .idup _ | .ilock _ | .iput _ => inferInstanceAs (Decidable (_ < _))
  | .ialloc _ => inferInstanceAs (Decidable (_ ∧ _))
  | .readi _ _ _ _ | .writei _ _ _ _ => inferInstanceAs (Decidable (_ ∧ _ ∧ _ ∧ _))
  | .itrunc _ | .dirlink _ _ _ => inferInstanceAs (Decidable (_ ∧ _))
  | .setLinks _ _ _ _ => inferInstanceAs (Decidable (_ ∧ _ ∧ _ ∧ _ ∧ _))

def perform (fs : Store) : Event → Except Panic Store
  | .iget inum => do
    let (_, fs) ← iget fs inum
    .ok fs
  | .idup slot => .ok (idup fs slot)
  | .ilock slot => ilock sb fs slot
  | .ialloc type => do
    let (_, fs) ← ialloc sb fs type
    .ok fs
  | .readi slot writable off n => do
    let (_, _, ip, disk) ← readi sb fs.disk (fs.itable slot).copy writable off n
    .ok (fs.put slot ip disk)
  | .writei slot source off n => do
    let (_, ip, disk) ← writei sb fs.disk (fs.itable slot).inum (fs.itable slot).copy source off n
    .ok (fs.put slot ip disk)
  | .itrunc slot => do
    let (ip, disk) ← itrunc sb fs.disk (fs.itable slot).inum (fs.itable slot).copy
    .ok (fs.put slot ip disk)
  | .dirlink slot name inum => do
    let (_, fs) ← dirlink sb fs slot name inum
    .ok fs
  | .iput slot => iput sb fs slot
  | .setLinks slot major minor nlink =>
    let ip := { (fs.itable slot).copy with major, minor, nlink }
    .ok (fs.put slot ip (iupdate sb fs.disk (fs.itable slot).inum ip))

def step (state : State) (event : Event) : Option State :=
  if state.panic.isSome then
    none
  else if permitted sb state.fs event then
    match perform sb state.fs event with
    | .ok fs => some { state with fs }
    | .error reason => some { state with panic := some reason }
  else
    none

end Xv6.Fs
