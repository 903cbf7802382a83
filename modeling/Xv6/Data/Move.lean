import Mathlib.Data.BitVec
import Xv6.Data.Overwrite

namespace Xv6.Data

/-! Copying loops over a memory with machine addresses.

The two ranges may overlap.  A loop is right as long as it writes no place that it has
still to read.
-/

section

variable {width : Nat} {Value : Type}

/-- `while(n-- > 0) *d++ = *s++`. -/
def copyForward : Nat → BitVec width → BitVec width → (BitVec width → Value) → BitVec width → Value
  | 0, _, _, mem => mem
  | n + 1, d, s, mem =>
    copyForward n (d + BitVec.ofNat width 1) (s + BitVec.ofNat width 1) (overwrite mem d (mem s))

/-- `while(n-- > 0) *--d = *--s`. -/
def copyBackward : Nat → BitVec width → BitVec width → (BitVec width → Value) → BitVec width → Value
  | 0, _, _, mem => mem
  | n + 1, d, s, mem =>
    let d := d - BitVec.ofNat width 1
    let s := s - BitVec.ofNat width 1
    copyBackward n d s (overwrite mem d (mem s))

/-- The range at `dst` has what was in the range at `src`, and all else is as before. -/
structure Moved (mem : BitVec width → Value) (dst src : BitVec width) (n : Nat)
    (after : BitVec width → Value) : Prop where
  copied : ∀ k, k < n → after (dst + BitVec.ofNat width k) = mem (src + BitVec.ofNat width k)
  kept : ∀ address, (∀ k, k < n → address ≠ dst + BitVec.ofNat width k) → after address = mem address

variable {mem after other : BitVec width → Value} {dst src : BitVec width} {n : Nat}

theorem Moved.unique (first : Moved mem dst src n after) (second : Moved mem dst src n other) :
    after = other := by
  funext address
  by_cases inside : ∃ k, k < n ∧ address = dst + BitVec.ofNat width k
  · obtain ⟨k, below, rfl⟩ := inside
    rw [first.copied k below, second.copied k below]
  · have outside : ∀ k, k < n → address ≠ dst + BitVec.ofNat width k :=
      fun k below same => inside ⟨k, below, same⟩
    rw [first.kept address outside, second.kept address outside]

theorem ofNat_succ (base : BitVec width) (k : Nat) :
    base + BitVec.ofNat width 1 + BitVec.ofNat width k = base + BitVec.ofNat width (k + 1) := by
  rw [BitVec.add_assoc, ← BitVec.ofNat_add, Nat.add_comm 1]

theorem offset_injective {base : BitVec width} {i j : Nat} (iFits : i < 2 ^ width) (jFits : j < 2 ^ width)
    (same : base + BitVec.ofNat width i = base + BitVec.ofNat width j) : i = j := by
  have offsets := congrArg BitVec.toNat ((BitVec.add_right_inj base).mp same)
  rwa [BitVec.toNat_ofNat, BitVec.toNat_ofNat, Nat.mod_eq_of_lt iFits, Nat.mod_eq_of_lt jFits] at offsets

/-- A step forward writes a place that no later step reads. -/
theorem copyForward_moved (fits : n ≤ 2 ^ width)
    (unread : ∀ i j, i < j → j < n → dst + BitVec.ofNat width i ≠ src + BitVec.ofNat width j) :
    Moved mem dst src n (copyForward n dst src mem) := by
  induction n generalizing mem dst src with
  | zero => exact ⟨nofun, fun _ _ => rfl⟩
  | succ n ih =>
    have rest := @ih (overwrite mem dst (mem src)) (dst + BitVec.ofNat width 1)
      (src + BitVec.ofNat width 1) (by omega) fun i j before below => by
        rw [ofNat_succ, ofNat_succ]
        exact unread (i + 1) (j + 1) (by omega) (by omega)
    constructor
    · intro k below
      cases k with
      | zero =>
        have behind : ∀ k, k < n → dst + BitVec.ofNat width 0 ≠
            dst + BitVec.ofNat width 1 + BitVec.ofNat width k := by
          intro k below same
          rw [ofNat_succ] at same
          exact absurd (offset_injective (by omega) (by omega) same) (by omega)
        rw [copyForward, rest.kept _ behind, BitVec.add_zero, BitVec.add_zero, overwrite_self]
      | succ k =>
        rw [copyForward, ← ofNat_succ dst k, rest.copied k (by omega), ofNat_succ]
        refine overwrite_of_ne fun same => unread 0 (k + 1) (by omega) below ?_
        rw [BitVec.add_zero, same]
    · intro address outside
      rw [copyForward, rest.kept address fun k below => ?_]
      · refine overwrite_of_ne fun same => outside 0 (by omega) ?_
        rw [same, BitVec.add_zero]
      · rw [ofNat_succ]
        exact outside (k + 1) (by omega)

/-- A step backward writes a place that no later step reads. -/
theorem copyBackward_moved (fits : n ≤ 2 ^ width)
    (unread : ∀ i j, j < i → i < n → dst + BitVec.ofNat width i ≠ src + BitVec.ofNat width j) :
    Moved mem dst src n
      (copyBackward n (dst + BitVec.ofNat width n) (src + BitVec.ofNat width n) mem) := by
  have back : ∀ base : BitVec width, ∀ k, base + BitVec.ofNat width (k + 1) - BitVec.ofNat width 1 =
      base + BitVec.ofNat width k := by
    intro base k
    rw [BitVec.ofNat_add, ← BitVec.add_assoc, BitVec.add_sub_cancel]
  induction n generalizing mem with
  | zero => exact ⟨nofun, fun _ _ => rfl⟩
  | succ n ih =>
    have rest := @ih (overwrite mem (dst + BitVec.ofNat width n) (mem (src + BitVec.ofNat width n)))
      (by omega) fun i j before below => unread i j before (by omega)
    rw [copyBackward, back, back]
    constructor
    · intro k below
      by_cases last : k = n
      · subst last
        rw [rest.kept _ fun j before same => ?_, overwrite_self]
        exact absurd (offset_injective (by omega) (by omega) same) (by omega)
      · rw [rest.copied k (by omega)]
        exact overwrite_of_ne fun same => unread n k (by omega) (by omega) same.symm
    · intro address outside
      rw [rest.kept address fun k below => outside k (by omega)]
      exact overwrite_of_ne (outside n (by omega))

end

end Xv6.Data
