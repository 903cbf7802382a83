import Xv6.Fs.Paths

namespace Xv6.Mkfs

open Xv6.Data Xv6.Log Xv6.Fs

/-! # mkfs

`mkfs.c`.  A failed assertion and `die` end the program; a call of the host that cannot
fail on a regular file (`lseek`, `write`) succeeds.  `xshort` and `xint` are the byte order
of the fields of `Dinode`, of directory entries and of indirect blocks.
-/

def NINODES : Nat := 200

def nbitmap : Nat := FSSIZE / (BSIZE * 8) + 1

def ninodeblocks : Nat := NINODES / IPB + 1

def nlog : Nat := LOGSIZE

/-- Number of meta blocks: boot, superblock, log, inodes and bitmap. -/
def nmeta : Nat := 2 + nlog + ninodeblocks + nbitmap

def nblocks : Nat := FSSIZE - nmeta

def sb : Superblock where
  size := FSSIZE
  nblocks := nblocks
  ninodes := NINODES
  inodestart := 2 + nlog
  bmapstart := 2 + nlog + ninodeblocks
  inodesFit := by decide
  bitmapFits := by decide
  addressable := by decide
  countable := by decide

def FSMAGIC : Nat := 0x10203040

/-- What the superblock on disk holds, with the two fields of the log. -/
def superblock : List Nat :=
  [FSMAGIC, sb.size, sb.nblocks, sb.ninodes, nlog, 2, sb.inodestart, sb.bmapstart]

inductive Abort where
  /-- `die("read")`: the block is not in the image. -/
  | read
  /-- `assert(fbn < MAXFILE)` -/
  | fileSize
  /-- `assert(rootino == ROOTINO)` -/
  | rootino
  /-- `assert(index(shortname, '/') == 0)` -/
  | slash
  /-- `die(argv[i])`: the file cannot be opened. -/
  | noFile
  /-- `assert(used < BSIZE*8)` -/
  | bitmap
deriving DecidableEq, Repr

/-- The image file, `length` blocks long, and the two counters. -/
structure State where
  blocks : Disk
  length : Nat
  freeinode : Nat
  freeblock : Nat

def zeroes : Bytes := fun _ => 0

/-! ## Sectors and inodes -/

/-- The block at offset `sec * BSIZE`, computed in a `uint`. -/
def sector (sec : Nat) : Nat := sec * BSIZE % 2 ^ 32 / BSIZE

section

variable (state : State)

def wsect (sec : Nat) (buf : Bytes) : State :=
  { state with
    blocks := overwrite state.blocks (sector sec) buf
    length := max state.length (sector sec + 1) }

def rsect (sec : Nat) : Except Abort Bytes :=
  if sector sec < state.length then .ok (state.blocks (sector sec)) else .error .read

def winode (inum : Nat) (ip : Dinode) : Except Abort State := do
  let buf ← rsect state (sb.IBLOCK inum)
  .ok (wsect state (sb.IBLOCK inum) (writeDinode buf (inum % IPB * dinodeSize) ip))

def rinode (inum : Nat) : Except Abort Dinode := do
  let buf ← rsect state (sb.IBLOCK inum)
  .ok (readDinode buf (inum % IPB * dinodeSize))

def newDinode (type : Nat) : Dinode := ⟨type, 0, 0, 1, 0, fun _ => 0⟩

def ialloc (type : Nat) : Except Abort (Nat × State) := do
  let inum := state.freeinode
  let state ← winode { state with freeinode := inum + 1 } inum (newDinode type)
  .ok (inum, state)

/-- A bitmap block with the first `used` bits set. -/
def bitmap (used : Nat) : Bytes := (List.range used).foldl Bytes.setBit zeroes

def balloc (used : Nat) : Except Abort State :=
  if used < BSIZE * 8 then .ok (wsect state sb.bmapstart (bitmap used)) else .error .bitmap

/-! ## Appending to a file -/

/-- `if(din.addrs[index] == 0) din.addrs[index] = freeblock++`. -/
def takeAddr (din : Dinode) (index : Fin (NDIRECT + 1)) : Dinode × State :=
  if din.addrs index = 0 then
    (din.setAddr index state.freeblock, { state with freeblock := state.freeblock + 1 })
  else
    (din, state)

/-- The block `x` of block `fbn` of a file with an indirect block. -/
def appendEntry (din : Dinode) (fbn : Nat) : Except Abort (Nat × Dinode × State) := do
  let indirect ← rsect state (din.addrs (Fin.last NDIRECT))
  if indirect.load (4 * (fbn - NDIRECT)) 4 = 0 then
    .ok (state.freeblock, din,
      wsect { state with freeblock := state.freeblock + 1 } (din.addrs (Fin.last NDIRECT))
        (indirect.store (4 * (fbn - NDIRECT)) 4 state.freeblock))
  else
    .ok (indirect.load (4 * (fbn - NDIRECT)) 4, din, state)

/-- The block `x` of block `fbn` of a file, which is below `MAXFILE`. -/
def appendBlock (din : Dinode) (fbn : Nat) : Except Abort (Nat × Dinode × State) :=
  if direct : fbn < NDIRECT then
    let taken := takeAddr state din ⟨fbn, Nat.lt_succ_of_lt direct⟩
    .ok (taken.1.addrs ⟨fbn, Nat.lt_succ_of_lt direct⟩, taken.1, taken.2)
  else
    let taken := takeAddr state din (Fin.last NDIRECT)
    appendEntry taken.2 taken.1 fbn

/-- `bcopy(p, buf + offset, n1)`. -/
def bcopy (p : List UInt8) (buf : Bytes) (offset n1 : Nat) : Bytes := fun index =>
  if offset ≤ index ∧ index < offset + n1 then p.getD (index - offset) 0 else buf index

/-- The `n1` bytes of an iteration of `iappend`, which lie in one block. -/
def iappendBlock (din : Dinode) (off : Nat) (p : List UInt8) (n1 : Nat) :
    Except Abort (Dinode × State) := do
  let (x, din, state) ← appendBlock state din (off / BSIZE)
  let buf ← rsect state x
  .ok (din, wsect state x (bcopy p buf (off % BSIZE) n1))

/-- The loop of `iappend`; every iteration takes at least one byte off `p`. -/
def iappendLoop : Nat → State → Dinode → Nat → List UInt8 → Except Abort (Nat × Dinode × State)
  | 0, state, din, off, _ => .ok (off, din, state)
  | fuel + 1, state, din, off, p =>
    if p = [] then
      .ok (off, din, state)
    else if off / BSIZE < MAXFILE then do
      let n1 := min p.length (BSIZE - off % BSIZE)
      let (din, state) ← iappendBlock state din off p n1
      iappendLoop fuel state din (off + n1) (p.drop n1)
    else
      .error .fileSize

def iappend (inum : Nat) (p : List UInt8) : Except Abort State := do
  let din ← rinode state inum
  let (off, din, state) ← iappendLoop p.length state din din.size p
  winode state inum { din with size := off }

end

/-! ## The program -/

/-- What a call of `read` returns before the end of a file. -/
structure Chunk where
  bytes : List UInt8
  nonempty : 0 < bytes.length
  bounded : bytes.length ≤ BSIZE

/-- An argument of the program, a C string, and what `read` returns if the file can be
opened. -/
structure File where
  path : List UInt8
  chunks : Option (List Chunk)
  terminated : 0 ∉ path

/-- `user/` -/
def userSlash : List UInt8 := [117, 115, 101, 114, 47]

def underscore : UInt8 := 95

/-- Get rid of `user/`. -/
def shortname (path : List UInt8) : List UInt8 :=
  if path.take 5 = userSlash then path.drop 5 else path

/-- Skip a leading `_`. -/
def skipUnderscore (name : List UInt8) : List UInt8 :=
  if name.head? = some underscore then name.tail else name

/-- A `struct dirent`, its name padded with zeros. -/
def direntBytes (inum : Nat) (name : Nat → UInt8) : List UInt8 :=
  (List.range direntSize).map fun index => (dirent inum name index).getD 0

def appendChunks (inum : Nat) (state : State) (chunks : List Chunk) : Except Abort State :=
  chunks.foldlM (fun state chunk => iappend state inum chunk.bytes) state

def addFile (rootino : Nat) (state : State) (file : File) : Except Abort State :=
  let name := shortname file.path
  if slash ∈ name then
    .error .slash
  else
    match file.chunks with
    | none => .error .noFile
    | some chunks => do
      let (inum, state) ← ialloc state T_FILE
      let state ← iappend state rootino (direntBytes inum (nameBuffer (skipUnderscore name)))
      appendChunks inum state chunks

/-- Fix the size of the root directory. -/
def fixRoot (rootino : Nat) (state : State) : Except Abort State := do
  let din ← rinode state rootino
  winode state rootino { din with size := (din.size / BSIZE + 1) * BSIZE }

/-- The image with nothing but a superblock. -/
@[irreducible]
def blank : State :=
  let empty : State := ⟨fun _ => zeroes, 0, 1, nmeta⟩
  let zeroed := (List.range FSSIZE).foldl (fun state sec => wsect state sec zeroes) empty
  wsect zeroed 1 (zeroes.storeWords 0 superblock)

def mkfs (files : List File) : Except Abort State := do
  let (rootino, state) ← ialloc blank T_DIR
  if rootino = ROOTINO then do
    let state ← iappend state rootino (direntBytes rootino dot)
    let state ← iappend state rootino (direntBytes rootino dotdot)
    let state ← files.foldlM (addFile rootino) state
    let state ← fixRoot rootino state
    balloc state state.freeblock
  else
    .error .rootino

end Xv6.Mkfs
