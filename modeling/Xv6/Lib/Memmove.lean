import Xv6.Data.Move

namespace Xv6.Lib

open Xv6.Data

/-! # memmove

The one of the kernel in `string.c`, and the one of the user library in `ulib.c`.
-/

/-- The bytes of an address space. -/
abbrev AddressSpace := BitVec 64 → UInt8

/-- `memmove` of the kernel, with a `uint` count: the value returned, and the memory. -/
def kernelMemmove (mem : AddressSpace) (dst src : BitVec 64) (n : BitVec 32) : BitVec 64 × AddressSpace :=
  if n = 0 then
    (dst, mem)
  else if src < dst ∧ src + n.setWidth 64 > dst then
    (dst, copyBackward n.toNat (dst + n.setWidth 64) (src + n.setWidth 64) mem)
  else
    (dst, copyForward n.toNat dst src mem)

/-- `memmove` of the user library, with an `int` count; a loop for a negative count does
not run. -/
def userMemmove (mem : AddressSpace) (vdst vsrc : BitVec 64) (n : BitVec 32) : BitVec 64 × AddressSpace :=
  if vsrc > vdst then
    (vdst, copyForward n.toInt.toNat vdst vsrc mem)
  else
    (vdst, copyBackward n.toInt.toNat (vdst + n.signExtend 64) (vsrc + n.signExtend 64) mem)

section

variable {mem : AddressSpace} {dst src : BitVec 64} {n : Nat}

theorem offset_toNat {base : BitVec 64} {k : Nat} (fits : base.toNat + k < 2 ^ 64) :
    (base + BitVec.ofNat 64 k).toNat = base.toNat + k := by
  rw [BitVec.toNat_add, BitVec.toNat_ofNat]
  omega

/-- Forward is right unless the source begins before a destination that it overlaps. -/
theorem copyForward_overlap (srcFits : src.toNat + n ≤ 2 ^ 64) (dstFits : dst.toNat + n ≤ 2 ^ 64)
    (direction : dst.toNat ≤ src.toNat ∨ src.toNat + n ≤ dst.toNat) :
    Moved mem dst src n (copyForward n dst src mem) := by
  refine copyForward_moved (by omega) fun i j before below same => ?_
  have addresses := congrArg BitVec.toNat same
  rw [offset_toNat (by omega), offset_toNat (by omega)] at addresses
  omega

theorem copyBackward_overlap (dstFits : dst.toNat + n ≤ 2 ^ 64) (direction : src.toNat ≤ dst.toNat) :
    Moved mem dst src n (copyBackward n (dst + BitVec.ofNat 64 n) (src + BitVec.ofNat 64 n) mem) := by
  refine copyBackward_moved (by omega) fun i j before below same => ?_
  have addresses := congrArg BitVec.toNat same
  rw [offset_toNat (by omega), offset_toNat (by omega)] at addresses
  omega

theorem kernelMemmove_dst (n : BitVec 32) : (kernelMemmove mem dst src n).1 = dst := by
  unfold kernelMemmove
  split
  · rfl
  · split <;> rfl

theorem userMemmove_dst (n : BitVec 32) : (userMemmove mem dst src n).1 = dst := by
  unfold userMemmove
  split <;> rfl

theorem kernelMemmove_moved (mem : AddressSpace) {n : BitVec 32} (srcFits : src.toNat + n.toNat ≤ 2 ^ 64)
    (dstFits : dst.toNat + n.toNat ≤ 2 ^ 64) :
    Moved mem dst src n.toNat (kernelMemmove mem dst src n).2 := by
  have width : n.setWidth 64 = BitVec.ofNat 64 n.toNat := BitVec.eq_of_toNat_eq (by
    rw [BitVec.toNat_setWidth, BitVec.toNat_ofNat])
  unfold kernelMemmove
  split
  · rename_i zero
    subst zero
    exact ⟨nofun, fun _ _ => rfl⟩
  · rw [width]
    split
    · rename_i overlap
      exact copyBackward_overlap dstFits (Nat.le_of_lt overlap.1)
    · rename_i apart
      refine copyForward_overlap srcFits dstFits ?_
      -- A source that begins first ends below the top, so its end does not wrap.
      rcases Nat.lt_or_ge src.toNat dst.toNat with first | last
      · have ends : ¬dst < src + BitVec.ofNat 64 n.toNat := fun later => apart ⟨first, later⟩
        rw [BitVec.lt_def, offset_toNat (by omega)] at ends
        exact .inr (Nat.le_of_not_lt ends)
      · exact .inl last

theorem userMemmove_moved (mem : AddressSpace) {n : BitVec 32} (nonnegative : 0 ≤ n.toInt)
    (srcFits : src.toNat + n.toNat ≤ 2 ^ 64) (dstFits : dst.toNat + n.toNat ≤ 2 ^ 64) :
    Moved mem dst src n.toNat (userMemmove mem dst src n).2 := by
  have small : 2 * n.toNat < 2 ^ 32 := by
    rw [BitVec.toInt_eq_toNat_cond] at nonnegative
    split at nonnegative
    · assumption
    · have bound := n.isLt
      omega
  have count : n.toInt.toNat = n.toNat := by
    rw [BitVec.toInt_eq_toNat_of_lt (by omega), Int.toNat_natCast]
  have width : n.signExtend 64 = BitVec.ofNat 64 n.toNat := by
    rw [BitVec.signExtend_eq_setWidth_of_msb_false]
    · exact BitVec.eq_of_toNat_eq (by rw [BitVec.toNat_setWidth, BitVec.toNat_ofNat])
    · exact BitVec.msb_eq_false_iff_two_mul_lt.mpr small
  unfold userMemmove
  rw [count, width]
  split
  · rename_i later
    exact copyForward_overlap srcFits dstFits (.inl (Nat.le_of_lt later))
  · rename_i earlier
    exact copyBackward_overlap dstFits (Nat.le_of_not_lt earlier)

/-- For every memory, overlap and count, as long as the ranges do not wrap: both versions move
the bytes and touch nothing else, so they agree. -/
theorem memmove_moves (mem : AddressSpace) (dst src : BitVec 64) (n : BitVec 32)
    (srcFits : src.toNat + n.toNat ≤ 2 ^ 64) (dstFits : dst.toNat + n.toNat ≤ 2 ^ 64) :
    Moved mem dst src n.toNat (kernelMemmove mem dst src n).2 ∧
      (0 ≤ n.toInt → Moved mem dst src n.toNat (userMemmove mem dst src n).2 ∧
        userMemmove mem dst src n = kernelMemmove mem dst src n) := by
  have kernel := kernelMemmove_moved mem srcFits dstFits
  refine ⟨kernel, fun nonnegative => ?_⟩
  have user := userMemmove_moved mem nonnegative srcFits dstFits
  exact ⟨user, Prod.ext ((userMemmove_dst n).trans (kernelMemmove_dst n).symm) (user.unique kernel)⟩

end

def countingBytes : AddressSpace := fun address => UInt8.ofNat address.toNat

/-- Three bytes moved up by one. -/
theorem memmove_moves_up :
    Moved countingBytes 0x1001 0x1000 3 (kernelMemmove countingBytes 0x1001 0x1000 3).2 ∧
      userMemmove countingBytes 0x1001 0x1000 3 = kernelMemmove countingBytes 0x1001 0x1000 3 := by
  obtain ⟨kernel, user⟩ := memmove_moves countingBytes 0x1001 0x1000 3 (by decide) (by decide)
  exact ⟨kernel, (user (by decide)).2⟩

end Xv6.Lib
