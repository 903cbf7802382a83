import Xv6.Data.Ownership
import Xv6.Fs.Layout

namespace Xv6.Fs

open Xv6.Data Xv6.Log

/-! # Who owns a data block

The block references of a file system, taken out of the bytes that hold them.
-/

/-- The bitmap, the inodes and the data blocks. -/
@[ext]
structure View where
  bit : Nat → Bool
  inode : Nat → Dinode
  data : Nat → Bytes

/-- Entry `index` of a data block read as an indirect block. -/
def View.entry (view : View) (block index : Nat) : Nat := (view.data block).load (4 * index) 4

/-- A place that can hold a block number: `addrs[index]` of an inode, or an entry of
its indirect block. -/
inductive Place where
  | addr (inum : Nat) (index : Fin (NDIRECT + 1))
  | indirect (inum index : Nat)
deriving DecidableEq

def Place.inum : Place → Nat
  | .addr inum _ | .indirect inum _ => inum

/-- The place that `bmap` consults for block `bn` of an inode. -/
def Place.ofBlock (inum bn : Nat) : Place :=
  if direct : bn < NDIRECT then
    .addr inum ⟨bn, Nat.lt_succ_of_lt direct⟩
  else
    .indirect inum (bn - NDIRECT)

theorem Place.inum_ofBlock {inum bn : Nat} : (Place.ofBlock inum bn).inum = inum := by
  unfold Place.ofBlock
  split <;> rfl

/-- `addrs[index]`, if the inode is allocated. -/
def Dinode.addr (ip : Dinode) (index : Fin (NDIRECT + 1)) : Nat :=
  if ip.type = 0 then 0 else ip.addrs index

/-- The block number at a place of an allocated inode; zero if there is none. -/
def View.target (view : View) : Place → Nat
  | .addr inum index => (view.inode inum).addr index
  | .indirect inum index =>
    if (view.inode inum).addr (Fin.last NDIRECT) ≠ 0 ∧ index < NINDIRECT then
      view.entry ((view.inode inum).addr (Fin.last NDIRECT)) index
    else
      0

/-- The byte at an offset of a file. -/
def View.byte (view : View) (inum off : Nat) : UInt8 :=
  view.data (view.target (.ofBlock inum (off / BSIZE))) (off % BSIZE)

structure Owned (sb : Superblock) (view : View) : Prop where
  /-- The blocks referred to are the data blocks marked in the bitmap, each from one place. -/
  exact : Exact 0 view.target fun block => sb.IsData block ∧ view.bit block = true
  metadata : ∀ block, block < sb.dataStart → view.bit block = true
  size_le : ∀ inum, (view.inode inum).type ≠ 0 → (view.inode inum).size ≤ MAXFILE * BSIZE
  solid : ∀ inum bn, (view.inode inum).type ≠ 0 → bn * BSIZE < (view.inode inum).size →
    view.target (.ofBlock inum bn) ≠ 0

/-- The view with the in-memory copy of an inode in place of the one on disk. -/
def View.put (view : View) (inum : Nat) (ip : Dinode) : View :=
  { view with inode := Function.update view.inode inum ip }

/-- New contents for a block. -/
def View.fill (view : View) (block : Nat) (bytes : Bytes) : View :=
  { view with data := Function.update view.data block bytes }

def View.mark (view : View) (block : Nat) : View :=
  { view with bit := Function.update view.bit block true }

/-- Mark a block and fill it with zeros. -/
def View.take (view : View) (block : Nat) : View := (view.mark block).fill block fun _ => 0

/-- Take a block for an address of an inode. -/
def View.giveAddr (view : View) (inum : Nat) (index : Fin (NDIRECT + 1)) (block : Nat) : View :=
  (view.take block).put inum ((view.inode inum).setAddr index block)

def View.setEntry (view : View) (block index value : Nat) : View :=
  view.fill block ((view.data block).store (4 * index) 4 value)

/-- Take a block for an entry of the indirect block of an inode. -/
def View.giveEntry (view : View) (inum index block : Nat) : View :=
  (view.take block).setEntry ((view.inode inum).addr (Fin.last NDIRECT)) index block

/-- Clear the bits of the blocks in a list of addresses. -/
def View.drop (view : View) (addrs : List Nat) : View :=
  { view with bit block := view.bit block && !decide (block ≠ 0 ∧ block ∈ addrs) }

theorem Superblock.dataStart_pos (sb : Superblock) : 0 < sb.dataStart := by
  have fits := sb.bitmapFits
  unfold dataStart
  generalize sb.size / BPB = last at *
  omega

variable {sb : Superblock} {view : View} {inum : Nat} {ip : Dinode} {block : Nat}

theorem Superblock.IsData.ne_zero (isData : sb.IsData block) : block ≠ 0 :=
  Nat.ne_of_gt (Nat.lt_of_lt_of_le sb.dataStart_pos isData.1)

theorem Superblock.IsData.fits (isData : sb.IsData block) : block < 2 ^ 32 := by
  have inside := isData.2
  have addressable := sb.addressable
  omega

theorem Dinode.addr_of_live (live : ip.type ≠ 0) (index : Fin (NDIRECT + 1)) :
    ip.addr index = ip.addrs index := if_neg live

theorem Dinode.addr_of_zero {index : Fin (NDIRECT + 1)} (zero : ip.addrs index = 0) :
    ip.addr index = 0 := by
  unfold Dinode.addr
  split
  · rfl
  · exact zero

@[simp]
theorem Dinode.addr_truncated (index : Fin (NDIRECT + 1)) : ip.truncated.addr index = 0 :=
  Dinode.addr_of_zero rfl

@[simp]
theorem View.put_put (other : Dinode) : (view.put inum ip).put inum other = view.put inum other := by
  simp only [View.put, Function.update_idem]

@[simp]
theorem View.put_inode_self : (view.put inum ip).inode inum = ip := Function.update_self ..

variable {other : Nat}

theorem View.put_inode_other (different : other ≠ inum) :
    (view.put inum ip).inode other = view.inode other := Function.update_of_ne different ..

@[simp]
theorem View.put_self : view.put inum (view.inode inum) = view := by
  simp only [View.put, Function.update_eq_self]

theorem View.fill_data_self (block : Nat) (bytes : Bytes) : (view.fill block bytes).data block = bytes :=
  Function.update_self ..

theorem View.fill_data_other (different : other ≠ block) (bytes : Bytes) :
    (view.fill block bytes).data other = view.data other := Function.update_of_ne different ..

@[simp]
theorem View.drop_nil : view.drop [] = view := by
  simp [View.drop]

theorem View.drop_zero (rest : List Nat) : view.drop (0 :: rest) = view.drop rest := by
  ext1
  · funext block
    by_cases zero : block = 0 <;> simp [View.drop, zero]
  · rfl
  · rfl

theorem View.drop_cons (addr : Nat) (rest : List Nat) :
    view.drop (addr :: rest) = (view.drop [addr]).drop rest := by
  ext1
  · funext block
    by_cases zero : block = 0 <;> simp [View.drop, zero, Bool.and_assoc]
  · rfl
  · rfl

theorem View.giveAddr_put (index : Fin (NDIRECT + 1)) (block : Nat) :
    (view.put inum ip).giveAddr inum index block =
      (view.take block).put inum (ip.setAddr index block) := by
  have commute : (view.put inum ip).take block = (view.take block).put inum ip := rfl
  rw [View.giveAddr, View.put_inode_self, commute, View.put_put]

theorem View.giveEntry_put (live : ip.type ≠ 0) (index block : Nat) :
    (view.put inum ip).giveEntry inum index block =
      ((view.take block).setEntry ip.indirect index block).put inum ip := by
  rw [View.giveEntry, View.put_inode_self, Dinode.addr_of_live live]
  rfl

/-! ## Places -/

theorem Place.ofBlock_direct {bn : Nat} (direct : bn < NDIRECT) :
    Place.ofBlock inum bn = .addr inum ⟨bn, Nat.lt_succ_of_lt direct⟩ := dif_pos direct

theorem Place.ofBlock_indirect {bn : Nat} (above : ¬bn < NDIRECT) :
    Place.ofBlock inum bn = .indirect inum (bn - NDIRECT) := dif_neg above

theorem Place.ofBlock_ne_last (bn other : Nat) :
    Place.ofBlock inum bn ≠ .addr other (Fin.last NDIRECT) := by
  intro equal
  by_cases direct : bn < NDIRECT
  · rw [Place.ofBlock_direct direct] at equal
    have index := congrArg Fin.val (Place.addr.inj equal).2
    exact Nat.ne_of_lt direct index
  · rw [Place.ofBlock_indirect direct] at equal
    cases equal

theorem Place.ofBlock_inj {bn otherBn : Nat}
    (equal : Place.ofBlock inum bn = .ofBlock other otherBn) : inum = other ∧ bn = otherBn := by
  by_cases left : bn < NDIRECT <;> by_cases right : otherBn < NDIRECT
  · rw [Place.ofBlock_direct left, Place.ofBlock_direct right] at equal
    exact ⟨(Place.addr.inj equal).1, congrArg Fin.val (Place.addr.inj equal).2⟩
  · rw [Place.ofBlock_direct left, Place.ofBlock_indirect right] at equal
    cases equal
  · rw [Place.ofBlock_indirect left, Place.ofBlock_direct right] at equal
    cases equal
  · rw [Place.ofBlock_indirect left, Place.ofBlock_indirect right] at equal
    have indices := (Place.indirect.inj equal).2
    exact ⟨(Place.indirect.inj equal).1, by omega⟩

theorem View.target_indirect {index : Nat}
    (present : (view.inode inum).addr (Fin.last NDIRECT) ≠ 0) (inside : index < NINDIRECT) :
    view.target (.indirect inum index) =
      view.entry ((view.inode inum).addr (Fin.last NDIRECT)) index := if_pos ⟨present, inside⟩

/-- Only the addresses of allocated inodes and their indirect blocks count. -/
theorem View.target_congr {other : View}
    (addrs : ∀ inum index, (other.inode inum).addr index = (view.inode inum).addr index)
    (blocks : ∀ inum, (view.inode inum).addr (Fin.last NDIRECT) ≠ 0 →
      other.data ((view.inode inum).addr (Fin.last NDIRECT)) =
        view.data ((view.inode inum).addr (Fin.last NDIRECT))) (place : Place) :
    other.target place = view.target place := by
  cases place with
  | addr inum index => exact addrs inum index
  | indirect inum index =>
    simp only [View.target, addrs]
    split
    · rename_i present
      rw [View.entry, View.entry, blocks inum present.1]
    · rfl

theorem View.put_addr {d : Dinode} (same : ∀ index, d.addr index = (view.inode inum).addr index)
    (other : Nat) (index : Fin (NDIRECT + 1)) :
    ((view.put inum d).inode other).addr index = (view.inode other).addr index := by
  by_cases isInode : other = inum
  · subst isInode
    rw [View.put_inode_self]
    exact same index
  · rw [View.put_inode_other isInode]

theorem View.byte_put {d : Dinode} (same : ∀ index, d.addr index = (view.inode inum).addr index) :
    (view.put inum d).byte = view.byte := by
  funext other off
  rw [View.byte, View.target_congr (View.put_addr same) fun _ _ => rfl]
  rfl

/-! ## Changes that keep the ownership exact -/

/-- The file blocks that were there hold what they held. -/
def View.Keeps (before after : View) : Prop :=
  ∀ inum off, before.target (.ofBlock inum (off / BSIZE)) ≠ 0 →
    after.byte inum off = before.byte inum off

theorem View.Keeps.refl (view : View) : view.Keeps view := fun _ _ _ => rfl

theorem View.Keeps.of_data {before after : View}
    (targets : ∀ place, before.target place ≠ 0 → after.target place = before.target place)
    (data : ∀ inum bn, before.target (.ofBlock inum bn) ≠ 0 →
      after.data (before.target (.ofBlock inum bn)) = before.data (before.target (.ofBlock inum bn))) :
    before.Keeps after := by
  intro inum off present
  rw [View.byte, View.byte, targets _ present, data inum _ present]

/-- What `balloc` finds. -/
structure Free (sb : Superblock) (view : View) (block : Nat) : Prop where
  isData : sb.IsData block
  clear : view.bit block = false

theorem Free.unused (free : Free sb view block) : ¬(sb.IsData block ∧ view.bit block = true) := by
  rintro ⟨_, marked⟩
  rw [free.clear] at marked
  cases marked

namespace Owned

theorem put (owned : Owned sb view) {d : Dinode}
    (same : ∀ index, d.addr index = (view.inode inum).addr index)
    (bounded : d.type ≠ 0 → d.size ≤ MAXFILE * BSIZE)
    (covered : d.type ≠ 0 → ∀ bn, bn * BSIZE < d.size → view.target (.ofBlock inum bn) ≠ 0) :
    Owned sb (view.put inum d) := by
  have targets := View.target_congr (View.put_addr same) fun _ _ => rfl
  constructor
  · exact owned.exact.congr targets fun _ => Iff.rfl
  · exact owned.metadata
  · intro other live
    by_cases isInode : other = inum
    · subst isInode
      rw [View.put_inode_self] at live ⊢
      exact bounded live
    · rw [View.put_inode_other isInode] at live ⊢
      exact owned.size_le other live
  · intro other bn live below
    rw [targets]
    by_cases isInode : other = inum
    · subst isInode
      rw [View.put_inode_self] at live below
      exact covered live bn below
    · rw [View.put_inode_other isInode] at live below
      exact owned.solid other bn live below

/-- A change that keeps the files: their sizes, and their blocks where they have any. -/
theorem of_exact (owned : Owned sb view) {other : View}
    (exact : Exact 0 other.target fun block => sb.IsData block ∧ other.bit block = true)
    (metadata : ∀ block, block < sb.dataStart → other.bit block = true)
    (inodes : ∀ inum, (other.inode inum).type = (view.inode inum).type ∧
      (other.inode inum).size = (view.inode inum).size)
    (kept : ∀ place, view.target place ≠ 0 → other.target place = view.target place) :
    Owned sb other := by
  refine ⟨exact, metadata, fun inum live => ?_, fun inum bn live below => ?_⟩
  · rw [(inodes inum).1] at live
    rw [(inodes inum).2]
    exact owned.size_le inum live
  · rw [(inodes inum).1] at live
    rw [(inodes inum).2] at below
    have present := owned.solid inum bn live below
    rw [kept _ present]
    exact present

theorem target_fill (owned : Owned sb view) {bn : Nat}
    (present : view.target (.ofBlock inum bn) ≠ 0) (bytes : Bytes) (place : Place) :
    (view.fill (view.target (.ofBlock inum bn)) bytes).target place = view.target place := by
  apply View.target_congr
  · intro other index
    rfl
  · intro other _
    have apart : (view.inode other).addr (Fin.last NDIRECT) ≠ view.target (.ofBlock inum bn) :=
      fun equal => Place.ofBlock_ne_last bn other (owned.exact.unique _ _ present equal.symm)
    exact Function.update_of_ne apart ..

theorem fill (owned : Owned sb view) {bn : Nat} (present : view.target (.ofBlock inum bn) ≠ 0)
    (bytes : Bytes) : Owned sb (view.fill (view.target (.ofBlock inum bn)) bytes) :=
  owned.of_exact (owned.exact.congr (owned.target_fill present bytes) fun _ => Iff.rfl)
    owned.metadata (fun _ => ⟨rfl, rfl⟩) fun place _ => owned.target_fill present bytes place

theorem byte_fill (owned : Owned sb view) {bn : Nat} (present : view.target (.ofBlock inum bn) ≠ 0)
    (bytes : Bytes) (other off : Nat) :
    (view.fill (view.target (.ofBlock inum bn)) bytes).byte other off =
      if other = inum ∧ off / BSIZE = bn then bytes (off % BSIZE) else view.byte other off := by
  rw [View.byte, owned.target_fill present]
  split
  · rename_i same
    rw [same.1, same.2, View.fill_data_self]
  · rename_i different
    have apart : view.target (.ofBlock other (off / BSIZE)) ≠ view.target (.ofBlock inum bn) := by
      intro equal
      obtain ⟨rfl, rfl⟩ := Place.ofBlock_inj (owned.exact.unique _ _ present equal.symm)
      exact different ⟨rfl, rfl⟩
    rw [View.fill_data_other apart, View.byte]

variable {block : Nat}

theorem target_ne_free (owned : Owned sb view) (free : Free sb view block) (place : Place) :
    view.target place ≠ block := by
  intro equal
  exact free.unused (equal ▸ owned.exact.marked place (equal ▸ free.isData.ne_zero))

theorem mark_used (block other : Nat) (isData : sb.IsData block) :
    sb.IsData other ∧ (view.mark block).bit other = true ↔
      (sb.IsData other ∧ view.bit other = true) ∨ other = block := by
  by_cases same : other = block
  · subst same
    simp [View.mark, isData]
  · simp [View.mark, same]

theorem mark_metadata (owned : Owned sb view) (block other : Nat) (below : other < sb.dataStart) :
    (view.mark block).bit other = true := by
  by_cases same : other = block
  · subst same
    exact Function.update_self ..
  · exact (Function.update_of_ne same ..).trans (owned.metadata other below)

variable {index : Fin (NDIRECT + 1)}

theorem addr_giveAddr_self (live : (view.inode inum).type ≠ 0) :
    ((view.giveAddr inum index block).inode inum).addr index = block := by
  have liveAfter : ((view.inode inum).setAddr index block).type ≠ 0 := live
  rw [View.giveAddr, View.put_inode_self, Dinode.addr_of_live liveAfter]
  exact Function.update_self ..

theorem addr_giveAddr_other {position : Fin (NDIRECT + 1)} {other : Nat}
    (live : (view.inode inum).type ≠ 0) (different : Place.addr other position ≠ .addr inum index) :
    ((view.giveAddr inum index block).inode other).addr position =
      (view.inode other).addr position := by
  have liveAfter : ((view.inode inum).setAddr index block).type ≠ 0 := live
  by_cases isInode : other = inum
  · subst isInode
    have positions : position ≠ index := fun equal => different (by rw [equal])
    rw [View.giveAddr, View.put_inode_self, Dinode.addr_of_live liveAfter,
      Dinode.addr_of_live live]
    exact overwrite_of_ne positions ..
  · rw [View.giveAddr, View.put_inode_other isInode]
    rfl

theorem target_giveEntry_self {index : Nat}
    (present : (view.inode inum).addr (Fin.last NDIRECT) ≠ 0) (inside : index < NINDIRECT)
    (fits : block < 2 ^ 32) :
    (view.giveEntry inum index block).target (.indirect inum index) = block := by
  have stored : (view.giveEntry inum index block).target (.indirect inum index) =
      (view.giveEntry inum index block).entry ((view.inode inum).addr (Fin.last NDIRECT)) index :=
    if_pos ⟨present, inside⟩
  rw [stored, View.entry, View.giveEntry, View.setEntry, View.fill_data_self]
  exact Bytes.load_store_fits fits

section

variable (owned : Owned sb view) (free : Free sb view block)

include owned free

section

variable (live : (view.inode inum).type ≠ 0) (vacant : (view.inode inum).addrs index = 0)

include live vacant

theorem target_giveAddr_other {place : Place} (different : place ≠ .addr inum index) :
    (view.giveAddr inum index block).target place = view.target place := by
  cases place with
  | addr other position => exact addr_giveAddr_other live different
  | indirect other position =>
    by_cases isNew : Place.addr other (Fin.last NDIRECT) = .addr inum index
    · -- The new indirect block has no entries yet.
      obtain ⟨rfl, rfl⟩ := Place.addr.inj isNew
      have before : (view.inode other).addr (Fin.last NDIRECT) = 0 :=
        (Dinode.addr_of_live live _).trans vacant
      have zeros : (view.giveAddr other (Fin.last NDIRECT) block).data block = fun _ => 0 :=
        Function.update_self ..
      have empty : (view.giveAddr other (Fin.last NDIRECT) block).entry block position = 0 := by
        rw [View.entry, zeros]
        rfl
      simp only [View.target, addr_giveAddr_self live, before, empty, ite_self, ne_eq, not_true,
        false_and, if_false]
    · have apart := owned.target_ne_free free (.addr other (Fin.last NDIRECT))
      have entries : (view.giveAddr inum index block).entry
          ((view.inode other).addr (Fin.last NDIRECT)) position =
          view.entry ((view.inode other).addr (Fin.last NDIRECT)) position :=
        congrArg (fun bytes : Bytes => bytes.load (4 * position) 4)
          (Function.update_of_ne apart ..)
      simp only [View.target, addr_giveAddr_other live isNew, entries]

theorem keeps_giveAddr : view.Keeps (view.giveAddr inum index block) := by
  have before : view.target (.addr inum index) = 0 := (Dinode.addr_of_live live index).trans vacant
  refine View.Keeps.of_data (fun place present => ?_) fun other bn _ => ?_
  · exact owned.target_giveAddr_other free live vacant fun same => present (same ▸ before)
  · exact View.fill_data_other (owned.target_ne_free free _) _

/-- A free block goes to an empty address of an allocated inode. -/
theorem giveAddr : Owned sb (view.giveAddr inum index block) := by
  have before : view.target (.addr inum index) = 0 := (Dinode.addr_of_live live index).trans vacant
  have others : ∀ place, place ≠ .addr inum index →
      (view.giveAddr inum index block).target place = view.target place :=
    fun place different => owned.target_giveAddr_other free live vacant different
  refine owned.of_exact ?_ (owned.mark_metadata block) ?_ ?_
  · exact owned.exact.grow before free.unused free.isData.ne_zero (addr_giveAddr_self live) others
      fun other => mark_used block other free.isData
  · intro other
    by_cases isInode : other = inum
    · rw [isInode, View.giveAddr, View.put_inode_self]
      exact ⟨rfl, rfl⟩
    · rw [View.giveAddr, View.put_inode_other isInode]
      exact ⟨rfl, rfl⟩
  · intro place present
    exact others place fun same => present (same ▸ before)

end

theorem entry_giveEntry_other
    {index other position : Nat} (present : (view.inode other).addr (Fin.last NDIRECT) ≠ 0)
    (different : Place.indirect other position ≠ .indirect inum index) :
    (view.giveEntry inum index block).entry ((view.inode other).addr (Fin.last NDIRECT)) position =
      view.entry ((view.inode other).addr (Fin.last NDIRECT)) position := by
  have apart := owned.target_ne_free free (.addr other (Fin.last NDIRECT))
  have zeroed : (view.take block).data ((view.inode other).addr (Fin.last NDIRECT)) =
      view.data ((view.inode other).addr (Fin.last NDIRECT)) := Function.update_of_ne apart ..
  by_cases isInode : other = inum
  · subst isInode
    have positions : position ≠ index := fun equal => different (by rw [equal])
    rw [View.entry, View.giveEntry, View.setEntry, View.fill_data_self,
      Bytes.load_store_disjoint (by omega), zeroed, View.entry]
  · -- Two inodes do not share an indirect block.
    have blocks : (view.inode other).addr (Fin.last NDIRECT) ≠
        (view.inode inum).addr (Fin.last NDIRECT) := fun equal =>
      isInode (Place.addr.inj (owned.exact.unique (.addr other _) (.addr inum _) present equal)).1
    rw [View.entry, View.giveEntry, View.setEntry, View.fill_data_other blocks, zeroed,
      View.entry]

theorem target_giveEntry_other {index : Nat}
    {place : Place} (different : place ≠ .indirect inum index) :
    (view.giveEntry inum index block).target place = view.target place := by
  cases place with
  | addr other position => rfl
  | indirect other position =>
    by_cases counts : (view.inode other).addr (Fin.last NDIRECT) ≠ 0 ∧ position < NINDIRECT
    · refine (if_pos counts).trans ?_
      rw [View.target_indirect counts.1 counts.2]
      exact owned.entry_giveEntry_other free counts.1 different
    · exact (if_neg counts).trans (if_neg counts).symm

theorem keeps_giveEntry {index : Nat} (vacant : view.target (.indirect inum index) = 0) :
    view.Keeps (view.giveEntry inum index block) := by
  refine View.Keeps.of_data (fun place present => ?_) fun other bn present => ?_
  · exact owned.target_giveEntry_other free fun same => present (same ▸ vacant)
  · -- A file block is not the indirect block.
    have apart : view.target (.ofBlock other bn) ≠ (view.inode inum).addr (Fin.last NDIRECT) :=
      fun equal => Place.ofBlock_ne_last bn inum
        (owned.exact.unique _ (.addr inum (Fin.last NDIRECT)) present equal)
    exact (View.fill_data_other apart _).trans
      (View.fill_data_other (owned.target_ne_free free _) _)

/-- A free block goes to an empty entry of an indirect block. -/
theorem giveEntry {index : Nat}
    (present : (view.inode inum).addr (Fin.last NDIRECT) ≠ 0) (inside : index < NINDIRECT)
    (vacant : view.target (.indirect inum index) = 0) :
    Owned sb (view.giveEntry inum index block) := by
  have others : ∀ place, place ≠ .indirect inum index →
      (view.giveEntry inum index block).target place = view.target place :=
    fun place different => owned.target_giveEntry_other free different
  refine owned.of_exact ?_ (owned.mark_metadata block) (fun _ => ⟨rfl, rfl⟩) ?_
  · exact owned.exact.grow vacant free.unused free.isData.ne_zero
      (target_giveEntry_self present inside free.isData.fits) others fun other => mark_used block other free.isData
  · intro place nonzero
    exact others place fun same => nonzero (same ▸ vacant)

end

theorem drop (owned : Owned sb view) {addrs : List Nat}
    (all : ∀ block, block ≠ 0 → (block ∈ addrs ↔ ∃ place, place.inum = inum ∧
      view.target place = block)) :
    Owned sb ((view.drop addrs).put inum (view.inode inum).truncated) := by
  let after := (view.drop addrs).put inum (view.inode inum).truncated
  have cleared : ∀ place, place.inum = inum → after.target place = 0 := by
    rintro (⟨other, index⟩ | ⟨other, index⟩) rfl
    · simp only [after, View.target, Place.inum, View.put_inode_self, Dinode.addr_truncated]
    · simp only [after, View.target, Place.inum, View.put_inode_self, Dinode.addr_truncated, ne_eq,
        not_true, false_and, if_false]
  have others : ∀ place, ¬place.inum = inum → after.target place = view.target place := by
    intro place different
    cases place with
    | addr other index | indirect other index =>
      simp only [after, View.target, View.put_inode_other (show other ≠ inum from different)]
      rfl
  have bits : ∀ block, after.bit block = true ↔
      view.bit block = true ∧ ¬(block ≠ 0 ∧ block ∈ addrs) := by
    intro block
    simp only [after, View.drop, View.put, Bool.and_eq_true, Bool.not_eq_true', decide_eq_false_iff_not]
  constructor
  · refine owned.exact.shrink cleared others fun block => ?_
    rw [bits]
    constructor
    · rintro ⟨isData, marked, free⟩
      refine ⟨⟨isData, marked⟩, fun place isInode equal => free ⟨isData.ne_zero, ?_⟩⟩
      exact (all block isData.ne_zero).mpr ⟨place, isInode, equal⟩
    · rintro ⟨⟨isData, marked⟩, free⟩
      refine ⟨isData, marked, fun listed => ?_⟩
      obtain ⟨place, isInode, equal⟩ := (all block listed.1).mp listed.2
      exact free place isInode equal
  · intro block below
    refine (bits block).mpr ⟨owned.metadata block below, fun listed => ?_⟩
    obtain ⟨place, _, rfl⟩ := (all block listed.1).mp listed.2
    have isData := (owned.exact.marked place listed.1).1
    exact Nat.not_lt.mpr isData.1 below
  · intro other live
    by_cases isInode : other = inum
    · subst isInode
      rw [View.put_inode_self]
      exact Nat.zero_le _
    · rw [View.put_inode_other isInode] at live ⊢
      exact owned.size_le other live
  · intro other bn live below
    by_cases isInode : other = inum
    · subst isInode
      rw [View.put_inode_self] at below
      exact absurd below (Nat.not_lt_zero _)
    · rw [View.put_inode_other isInode] at live below
      refine ne_of_eq_of_ne (others _ (Place.inum_ofBlock.trans_ne isInode)) ?_
      exact owned.solid other bn live below

end Owned

end Xv6.Fs
