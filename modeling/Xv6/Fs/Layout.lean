import Mathlib.Data.List.OfFn
import Mathlib.Data.Fintype.Basic
import Xv6.Data.Bytes
import Xv6.Data.Overwrite
import Xv6.Log.Disk

namespace Xv6.Fs

open Xv6.Data Xv6.Log

/-! # The file system on disk

`fs.h`: where inodes, the bitmap and indirect blocks live, down to the byte.  The
blocks are what `bread` returns, so a buffer and its disk block are one thing here.
-/

def NDIRECT : Nat := 12

def NINDIRECT : Nat := BSIZE / 4

def MAXFILE : Nat := NDIRECT + NINDIRECT

/-- The size of `struct dinode`. -/
def dinodeSize : Nat := 64

/-- Inodes per block. -/
def IPB : Nat := BSIZE / dinodeSize

/-- Bitmap bits per block. -/
def BPB : Nat := BSIZE * 8

/-- The superblock, with the order of the areas that `mkfs` lays out; `balloc` and
`ialloc` count blocks and inodes in an `int`. -/
structure Superblock where
  size : Nat
  nblocks : Nat
  ninodes : Nat
  inodestart : Nat
  bmapstart : Nat
  inodesFit : inodestart + (ninodes / IPB + 1) ≤ bmapstart
  bitmapFits : bmapstart + (size / BPB + 1) + nblocks ≤ size
  addressable : size < 2 ^ 31
  countable : ninodes < 2 ^ 31

variable (sb : Superblock)

/-- The first data block. -/
def Superblock.dataStart : Nat := sb.size - sb.nblocks

def Superblock.IsData (block : Nat) : Prop := sb.dataStart ≤ block ∧ block < sb.size

instance (block : Nat) : Decidable (sb.IsData block) := inferInstanceAs (Decidable (_ ∧ _))

/-- Block containing inode `inum`. -/
def Superblock.IBLOCK (inum : Nat) : Nat := inum / IPB + sb.inodestart

/-- Block of the free map containing the bit for block `block`. -/
def Superblock.BBLOCK (block : Nat) : Nat := block / BPB + sb.bmapstart

theorem Superblock.IBLOCK_lt {inum : Nat} (inside : inum < sb.ninodes) :
    sb.IBLOCK inum < sb.bmapstart := by
  have fits := sb.inodesFit
  have below : inum / IPB ≤ sb.ninodes / IPB := Nat.div_le_div_right (Nat.le_of_lt inside)
  unfold IBLOCK
  omega

theorem Superblock.BBLOCK_bounds {block : Nat} (inside : block < sb.size) :
    sb.bmapstart ≤ sb.BBLOCK block ∧ sb.BBLOCK block < sb.dataStart := by
  have fits := sb.bitmapFits
  have below : block / BPB ≤ sb.size / BPB := Nat.div_le_div_right (Nat.le_of_lt inside)
  unfold BBLOCK dataStart
  generalize block / BPB = quotient at *
  generalize sb.size / BPB = last at *
  omega

theorem Superblock.bmapstart_le : sb.bmapstart ≤ sb.dataStart := by
  have fits := sb.bitmapFits
  unfold dataStart
  generalize sb.size / BPB = last at *
  omega

/-! ## Inodes -/

/-- `struct dinode`, and the copy of it in a `struct inode`. -/
@[ext]
structure Dinode where
  type : Nat
  major : Nat
  minor : Nat
  nlink : Nat
  size : Nat
  addrs : Fin (NDIRECT + 1) → Nat
deriving DecidableEq

/-- The address of the indirect block. -/
abbrev Dinode.indirect (dinode : Dinode) : Nat := dinode.addrs (Fin.last NDIRECT)

abbrev Dinode.resize (dinode : Dinode) (size : Nat) : Dinode := { dinode with size }

/-- The fields fit the `short`s and `uint`s they are stored in. -/
structure Dinode.Fits (dinode : Dinode) : Prop where
  type : dinode.type < 2 ^ 16
  major : dinode.major < 2 ^ 16
  minor : dinode.minor < 2 ^ 16
  nlink : dinode.nlink < 2 ^ 16
  size : dinode.size < 2 ^ 32
  addrs : ∀ index, dinode.addrs index < 2 ^ 32

/-- The fields that reading and writing the contents leave alone. -/
structure Dinode.Agrees (before after : Dinode) : Prop where
  type : after.type = before.type
  major : after.major = before.major
  minor : after.minor = before.minor
  nlink : after.nlink = before.nlink

theorem Dinode.Agrees.refl (dinode : Dinode) : dinode.Agrees dinode := ⟨rfl, rfl, rfl, rfl⟩

theorem Dinode.Agrees.trans {first second third : Dinode} (left : first.Agrees second)
    (right : second.Agrees third) : first.Agrees third :=
  ⟨right.type.trans left.type, right.major.trans left.major, right.minor.trans left.minor,
    right.nlink.trans left.nlink⟩

def Dinode.setAddr (ip : Dinode) (index : Fin (NDIRECT + 1)) (addr : Nat) : Dinode :=
  { ip with addrs := overwrite ip.addrs index addr }

/-- What `itrunc` leaves of an inode. -/
def Dinode.truncated (ip : Dinode) : Dinode := { ip with addrs := fun _ => 0, size := 0 }

def readDinode (bytes : Bytes) (base : Nat) : Dinode where
  type := bytes.load base 2
  major := bytes.load (base + 2) 2
  minor := bytes.load (base + 4) 2
  nlink := bytes.load (base + 6) 2
  size := bytes.load (base + 8) 4
  addrs index := bytes.load (base + 12 + 4 * index) 4

def writeDinode (bytes : Bytes) (base : Nat) (dinode : Dinode) : Bytes :=
  (((((bytes.store base 2 dinode.type).store (base + 2) 2 dinode.major).store (base + 4) 2
    dinode.minor).store (base + 6) 2 dinode.nlink).store (base + 8) 4 dinode.size).storeWords
    (base + 12) (List.ofFn dinode.addrs)

theorem readDinode_fits (bytes : Bytes) (base : Nat) : (readDinode bytes base).Fits :=
  ⟨bytes.load_lt _ 2, bytes.load_lt _ 2, bytes.load_lt _ 2, bytes.load_lt _ 2, bytes.load_lt _ 4,
    fun _ => bytes.load_lt _ 4⟩

theorem writeDinode_outside {bytes : Bytes} {base : Nat} {dinode : Dinode} {index : Nat}
    (outside : index < base ∨ base + dinodeSize ≤ index) :
    writeDinode bytes base dinode index = bytes index := by
  simp only [dinodeSize] at outside
  have length : (List.ofFn dinode.addrs).length = 13 := List.length_ofFn
  rw [writeDinode, Bytes.storeWords_outside (by omega),
    Bytes.store_outside (by omega), Bytes.store_outside (by omega), Bytes.store_outside (by omega),
    Bytes.store_outside (by omega), Bytes.store_outside (by omega)]

theorem readDinode_congr {left right : Bytes} {base : Nat}
    (same : ∀ index, base ≤ index → index < base + dinodeSize → left index = right index) :
    readDinode left base = readDinode right base := by
  have field : ∀ offset width, offset + width ≤ dinodeSize →
      left.load (base + offset) width = right.load (base + offset) width := fun offset width inside =>
    Bytes.load_congr fun index lower upper => same index (by omega) (by omega)
  have word : ∀ index : Fin (NDIRECT + 1), 12 + 4 * index.val + 4 ≤ dinodeSize := by
    intro index
    have bound := index.isLt
    simp only [NDIRECT, dinodeSize] at bound ⊢
    omega
  ext
  · exact field 0 2 (by decide)
  · exact field 2 2 (by decide)
  · exact field 4 2 (by decide)
  · exact field 6 2 (by decide)
  · exact field 8 4 (by decide)
  · rename_i index
    have loaded := field (12 + 4 * index) 4 (word index)
    simpa only [readDinode, Nat.add_assoc] using loaded

theorem readDinode_writeDinode {bytes : Bytes} {base : Nat} {dinode : Dinode}
    (fits : dinode.Fits) : readDinode (writeDinode bytes base dinode) base = dinode := by
  -- The addresses lie behind the other fields, and these one behind the other.
  have front : ∀ (before : Bytes) (offset width : Nat), offset + width ≤ 12 →
      (before.storeWords (base + 12) (List.ofFn dinode.addrs)).load (base + offset) width =
        before.load (base + offset) width := fun before offset width inside =>
    Bytes.load_congr fun index _ upper => Bytes.storeWords_outside (by omega)
  ext
  · refine (front _ 0 2 (by omega)).trans ?_
    rw [Bytes.load_store_disjoint (by omega), Bytes.load_store_disjoint (by omega),
      Bytes.load_store_disjoint (by omega), Bytes.load_store_disjoint (by omega)]
    exact Bytes.load_store_fits fits.type
  · refine (front _ 2 2 (by omega)).trans ?_
    rw [Bytes.load_store_disjoint (by omega), Bytes.load_store_disjoint (by omega),
      Bytes.load_store_disjoint (by omega)]
    exact Bytes.load_store_fits fits.major
  · refine (front _ 4 2 (by omega)).trans ?_
    rw [Bytes.load_store_disjoint (by omega), Bytes.load_store_disjoint (by omega)]
    exact Bytes.load_store_fits fits.minor
  · refine (front _ 6 2 (by omega)).trans ?_
    rw [Bytes.load_store_disjoint (by omega)]
    exact Bytes.load_store_fits fits.nlink
  · refine (front _ 8 4 (by omega)).trans ?_
    exact Bytes.load_store_fits fits.size
  · rename_i index
    have inside : index.val < (List.ofFn dinode.addrs).length := by
      rw [List.length_ofFn]
      exact index.isLt
    refine (Bytes.load_storeWords inside ?_).trans (List.getElem_ofFn inside)
    intro value member
    obtain ⟨position, rfl⟩ := List.mem_ofFn.mp member
    exact fits.addrs position

/-! ## The three kinds of metadata -/

def dinode (disk : Disk) (inum : Nat) : Dinode :=
  readDinode (disk (sb.IBLOCK inum)) (inum % IPB * dinodeSize)

def putDinode (disk : Disk) (inum : Nat) (dinode : Dinode) : Disk :=
  overwrite disk (sb.IBLOCK inum)
    (writeDinode (disk (sb.IBLOCK inum)) (inum % IPB * dinodeSize) dinode)

def bit (disk : Disk) (block : Nat) : Bool := (disk (sb.BBLOCK block)).bit (block % BPB)

def setBit (disk : Disk) (block : Nat) : Disk :=
  overwrite disk (sb.BBLOCK block) ((disk (sb.BBLOCK block)).setBit (block % BPB))

def clearBit (disk : Disk) (block : Nat) : Disk :=
  overwrite disk (sb.BBLOCK block) ((disk (sb.BBLOCK block)).clearBit (block % BPB))

/-- Entry `index` of an indirect block. -/
def word (disk : Disk) (block index : Nat) : Nat := (disk block).load (4 * index) 4

def putWord (disk : Disk) (block index value : Nat) : Disk :=
  overwrite disk block ((disk block).store (4 * index) 4 value)

variable {sb} {disk : Disk}

theorem dinode_fits (disk : Disk) (inum : Nat) : (dinode sb disk inum).Fits :=
  readDinode_fits _ _

theorem dinode_congr {other : Disk} {inum : Nat}
    (same : other (sb.IBLOCK inum) = disk (sb.IBLOCK inum)) :
    dinode sb other inum = dinode sb disk inum := by
  rw [dinode, dinode, same]

theorem dinode_putDinode_self {inum : Nat} {new : Dinode} (fits : new.Fits) :
    dinode sb (putDinode sb disk inum new) inum = new := by
  rw [dinode, putDinode, overwrite_self, readDinode_writeDinode fits]

theorem dinode_putDinode_other {inum other : Nat} {new : Dinode} (different : other ≠ inum) :
    dinode sb (putDinode sb disk inum new) other = dinode sb disk other := by
  by_cases same : sb.IBLOCK other = sb.IBLOCK inum
  · rw [dinode, dinode, putDinode, same, overwrite_self]
    apply readDinode_congr
    intro index lower upper
    apply writeDinode_outside
    have apart : other % IPB ≠ inum % IPB := by
      intro equal
      have quotient : other / IPB = inum / IPB := by
        unfold Superblock.IBLOCK at same
        omega
      exact different (by rw [← Nat.div_add_mod other IPB, ← Nat.div_add_mod inum IPB, quotient, equal])
    rcases Nat.lt_or_gt_of_ne apart with less | more
    · have step : (other % IPB + 1) * dinodeSize ≤ inum % IPB * dinodeSize :=
        Nat.mul_le_mul_right _ less
      rw [Nat.succ_mul] at step
      omega
    · have step : (inum % IPB + 1) * dinodeSize ≤ other % IPB * dinodeSize :=
        Nat.mul_le_mul_right _ more
      rw [Nat.succ_mul] at step
      omega
  · exact dinode_congr (by rw [putDinode, overwrite_of_ne same])

theorem bit_congr {other : Disk} {block : Nat}
    (same : other (sb.BBLOCK block) = disk (sb.BBLOCK block)) :
    bit sb other block = bit sb disk block := by
  rw [bit, bit, same]

theorem BBLOCK_mod_inj {block other : Nat} (sameBlock : sb.BBLOCK other = sb.BBLOCK block) :
    block % BPB = other % BPB ↔ block = other := by
  have quotient : other / BPB = block / BPB := by
    unfold Superblock.BBLOCK at sameBlock
    omega
  constructor
  · intro equal
    rw [← Nat.div_add_mod other BPB, ← Nat.div_add_mod block BPB, quotient, equal]
  · rintro rfl
    rfl

theorem bit_setBit (disk : Disk) (block other : Nat) :
    bit sb (setBit sb disk block) other = (bit sb disk other || decide (block = other)) := by
  by_cases same : sb.BBLOCK other = sb.BBLOCK block
  · rw [bit, bit, setBit, same, overwrite_self, Bytes.bit_setBit]
    simp only [BBLOCK_mod_inj same]
  · have different : block ≠ other := fun equal => same (by rw [equal])
    rw [decide_eq_false different, Bool.or_false]
    exact bit_congr (by rw [setBit, overwrite_of_ne same])

theorem bit_clearBit (disk : Disk) (block other : Nat) :
    bit sb (clearBit sb disk block) other = (bit sb disk other && !decide (block = other)) := by
  by_cases same : sb.BBLOCK other = sb.BBLOCK block
  · rw [bit, bit, clearBit, same, overwrite_self, Bytes.bit_clearBit]
    simp only [BBLOCK_mod_inj same]
  · have different : block ≠ other := fun equal => same (by rw [equal])
    rw [decide_eq_false different, Bool.not_false, Bool.and_true]
    exact bit_congr (by rw [clearBit, overwrite_of_ne same])

end Xv6.Fs
