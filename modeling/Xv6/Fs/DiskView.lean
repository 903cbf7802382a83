import Xv6.Fs.View

namespace Xv6.Fs

open Xv6.Data Xv6.Log

/-! # The view of a disk

How the view changes when one block of the disk does.
-/

/-- What the metadata on a disk says. -/
def view (sb : Superblock) (disk : Disk) : View where
  bit block := decide (block < sb.size) && bit sb disk block
  inode inum := if inum < sb.ninodes then dinode sb disk inum else ⟨0, 0, 0, 0, 0, fun _ => 0⟩
  data block := if sb.IsData block then disk block else fun _ => 0

variable {sb : Superblock} {disk : Disk} {inum : Nat} {ip : Dinode}

theorem view_bit {block : Nat} (inside : block < sb.size) :
    (view sb disk).bit block = bit sb disk block := by
  simp [view, inside]

theorem view_inode (inside : inum < sb.ninodes) : (view sb disk).inode inum = dinode sb disk inum :=
  if_pos inside

theorem view_data {block : Nat} (isData : sb.IsData block) : (view sb disk).data block = disk block :=
  if_pos isData

theorem view_entry {block : Nat} (isData : sb.IsData block) (index : Nat) :
    (view sb disk).entry block index = word disk block index := by
  rw [View.entry, view_data isData, word]

/-! ## Changes of one block -/

section

variable {block : Nat} {bytes : Bytes}

theorem view_bit_update (outside : ∀ other, other < sb.size → sb.BBLOCK other ≠ block) :
    (view sb (overwrite disk block bytes)).bit = (view sb disk).bit := by
  funext other
  by_cases inside : other < sb.size
  · rw [view_bit inside, view_bit inside]
    exact bit_congr (overwrite_of_ne (outside other inside) ..)
  · simp [view, inside]

theorem view_inode_update (outside : ∀ other, other < sb.ninodes → sb.IBLOCK other ≠ block) :
    (view sb (overwrite disk block bytes)).inode = (view sb disk).inode := by
  funext other
  by_cases inside : other < sb.ninodes
  · rw [view_inode inside, view_inode inside]
    exact dinode_congr (overwrite_of_ne (outside other inside) ..)
  · simp [view, inside]

theorem view_data_update (outside : ¬sb.IsData block) :
    (view sb (overwrite disk block bytes)).data = (view sb disk).data := by
  funext other
  by_cases isData : sb.IsData other
  · have different : other ≠ block := fun equal => outside (equal ▸ isData)
    rw [view_data isData, view_data isData, overwrite_of_ne different]
  · simp [view, isData]

theorem view_fill (isData : sb.IsData block) :
    view sb (overwrite disk block bytes) = (view sb disk).fill block bytes := by
  ext1
  · refine view_bit_update fun other inside equal => ?_
    exact Nat.not_le.mpr (sb.BBLOCK_bounds inside).2 (equal ▸ isData.1)
  · refine view_inode_update fun other inside equal => ?_
    have below := Nat.lt_of_lt_of_le (sb.IBLOCK_lt inside) sb.bmapstart_le
    exact Nat.not_le.mpr below (equal ▸ isData.1)
  · funext other
    by_cases same : other = block
    · subst same
      simp [view, View.fill, isData]
    · simp [view, View.fill, same]

theorem not_isData_BBLOCK (inside : block < sb.size) : ¬sb.IsData (sb.BBLOCK block) :=
  fun isData => Nat.not_le.mpr (sb.BBLOCK_bounds inside).2 isData.1

theorem IBLOCK_ne_BBLOCK (inside : block < sb.size) (other : Nat) (isInode : other < sb.ninodes) :
    sb.IBLOCK other ≠ sb.BBLOCK block :=
  Nat.ne_of_lt (Nat.lt_of_lt_of_le (sb.IBLOCK_lt isInode) (sb.BBLOCK_bounds inside).1)

theorem view_setBit (inside : block < sb.size) :
    view sb (setBit sb disk block) = (view sb disk).mark block := by
  ext1
  · funext other
    by_cases same : other = block
    · subst same
      simp [view, View.mark, inside, bit_setBit]
    · simp [view, View.mark, same, bit_setBit, Ne.symm same]
  · exact view_inode_update (IBLOCK_ne_BBLOCK inside)
  · exact view_data_update (not_isData_BBLOCK inside)

theorem view_clearBit (inside : block < sb.size) (nonzero : block ≠ 0) :
    view sb (clearBit sb disk block) = (view sb disk).drop [block] := by
  ext1
  · funext other
    by_cases same : other = block
    · subst same
      simp [view, View.drop, nonzero, bit_clearBit]
    · simp [view, View.drop, same, bit_clearBit, Ne.symm same]
  · exact view_inode_update (IBLOCK_ne_BBLOCK inside)
  · exact view_data_update (not_isData_BBLOCK inside)

theorem view_putWord {index value : Nat} (isData : sb.IsData block) :
    view sb (putWord disk block index value) = (view sb disk).setEntry block index value := by
  rw [putWord, view_fill isData, View.setEntry, view_data isData]

theorem view_putDinode {new : Dinode} (inside : inum < sb.ninodes) (fits : new.Fits) :
    view sb (putDinode sb disk inum new) = (view sb disk).put inum new := by
  have below := sb.IBLOCK_lt inside
  ext1
  · refine view_bit_update fun other isBlock => ?_
    exact Nat.ne_of_gt (Nat.lt_of_lt_of_le below (sb.BBLOCK_bounds isBlock).1)
  · funext other
    by_cases same : other = inum
    · subst same
      rw [view_inode inside, View.put_inode_self, dinode_putDinode_self fits]
    · rw [View.put_inode_other same]
      simp only [view, dinode_putDinode_other same]
  · refine view_data_update fun isData => ?_
    exact Nat.not_le.mpr (Nat.lt_of_lt_of_le below sb.bmapstart_le) isData.1

end

end Xv6.Fs
