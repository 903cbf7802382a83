import Mathlib.Data.Nat.Bitwise
import Xv6.Data.Overwrite

namespace Xv6.Data

/-! Byte arrays with little-endian integer fields.

`load width` and `store width` are the only way the layers above look at a
multi-byte field, so the two laws below (a field reads back what was stored in
it, and a store leaves every disjoint field alone) are all they need.
-/

abbrev Bytes := Nat → UInt8

namespace Bytes

/-- The unsigned integer in `width` bytes from `at`, least significant first. -/
def load (bytes : Bytes) : Nat → Nat → Nat
  | _, 0 => 0
  | offset, width + 1 => (bytes offset).toNat + 256 * load bytes (offset + 1) width

/-- Store the low `width` bytes of `value` from `offset` on. -/
def store (bytes : Bytes) (offset width value : Nat) : Bytes := fun index =>
  if offset ≤ index ∧ index < offset + width then
    UInt8.ofNat (value / 256 ^ (index - offset))
  else
    bytes index

theorem load_lt (bytes : Bytes) (offset width : Nat) : bytes.load offset width < 256 ^ width := by
  induction width generalizing offset with
  | zero => simp [load]
  | succ width ih =>
    have tail := ih (offset + 1)
    have head := (bytes offset).toNat_lt
    rw [load, Nat.pow_succ]
    omega

variable {offset width : Nat}

theorem load_congr {left right : Bytes}
    (same : ∀ index, offset ≤ index → index < offset + width → left index = right index) :
    left.load offset width = right.load offset width := by
  induction width generalizing offset with
  | zero => rfl
  | succ width ih =>
    rw [load, load, same offset (Nat.le_refl _) (by omega),
      ih fun index lower upper => same index (by omega) (by omega)]

theorem load_shift {left right : Bytes} {other : Nat}
    (same : ∀ k, k < width → left (offset + k) = right (other + k)) :
    left.load offset width = right.load other width := by
  induction width generalizing offset other with
  | zero => rfl
  | succ width ih =>
    have first : left offset = right other := same 0 (by omega)
    have rest : left.load (offset + 1) width = right.load (other + 1) width := ih fun k below => by
      rw [Nat.add_assoc, Nat.add_assoc, Nat.add_comm 1]
      exact same (k + 1) (by omega)
    rw [load, load, first, rest]

variable {bytes : Bytes} {value index : Nat}

theorem store_outside (outside : index < offset ∨ offset + width ≤ index) :
    bytes.store offset width value index = bytes index := by
  have different : ¬ (offset ≤ index ∧ index < offset + width) := by omega
  simp [store, different]

theorem load_store_disjoint {other otherWidth : Nat}
    (disjoint : other + otherWidth ≤ offset ∨ offset + width ≤ other) :
    (bytes.store offset width value).load other otherWidth = bytes.load other otherWidth :=
  load_congr fun _ _ _ => store_outside (by omega)

theorem load_store_same (bytes : Bytes) (offset width value : Nat) :
    (bytes.store offset width value).load offset width = value % 256 ^ width := by
  induction width generalizing offset value bytes with
  | zero => simp [load, Nat.mod_one]
  | succ width ih =>
    -- The bytes after the first are those of a narrower store of `value / 256`.
    have tail : (bytes.store offset (width + 1) value).load (offset + 1) width =
        (bytes.store (offset + 1) width (value / 256)).load (offset + 1) width := by
      apply load_congr
      intro index lower upper
      have wide : offset ≤ index ∧ index < offset + (width + 1) := by omega
      have narrow : offset + 1 ≤ index ∧ index < offset + 1 + width := by omega
      have power : 256 ^ (index - offset) = 256 * 256 ^ (index - (offset + 1)) := by
        rw [show index - offset = index - (offset + 1) + 1 by omega, Nat.pow_succ, Nat.mul_comm]
      simp only [store, wide, narrow, and_self, if_true, power, Nat.div_div_eq_div_mul]
    have head : (bytes.store offset (width + 1) value) offset = UInt8.ofNat value := by
      have inside : offset ≤ offset ∧ offset < offset + (width + 1) := by omega
      simp only [store, inside, and_self, if_true, Nat.sub_self, Nat.pow_zero, Nat.div_one]
    rw [load, tail, ih, head, Nat.pow_succ, Nat.mul_comm (256 ^ width), Nat.mod_mul]
    simp [UInt8.toNat_ofNat']

theorem load_store_fits (fits : value < 256 ^ width) :
    (bytes.store offset width value).load offset width = value := by
  rw [load_store_same, Nat.mod_eq_of_lt fits]

/-- The `int` held by a four-byte field. -/
def loadInt (bytes : Bytes) (offset : Nat) : Int :=
  if bytes.load offset 4 < 2 ^ 31 then bytes.load offset 4 else bytes.load offset 4 - 2 ^ 32

theorem loadInt_of_load_lt (small : bytes.load offset 4 < 2 ^ 31) :
    bytes.loadInt offset = bytes.load offset 4 := by
  simp only [loadInt, small, if_true]

/-! Bit `index % 8` of byte `index / 8`, as a bitmap uses it. -/

def mask (index : Nat) : UInt8 := UInt8.ofNat (2 ^ (index % 8))

def bit (bytes : Bytes) (index : Nat) : Bool := bytes (index / 8) &&& mask index ≠ 0

def setBit (bytes : Bytes) (index : Nat) : Bytes :=
  overwrite bytes (index / 8) (bytes (index / 8) ||| mask index)

def clearBit (bytes : Bytes) (index : Nat) : Bytes :=
  overwrite bytes (index / 8) (bytes (index / 8) &&& ~~~ mask index)

theorem mask_toNat (index : Nat) : (mask index).toNat = 2 ^ (index % 8) := by
  have small : index % 8 < 8 := Nat.mod_lt _ (by decide)
  have fits : 2 ^ (index % 8) < 2 ^ 8 := Nat.pow_lt_pow_right (by decide) small
  rw [mask, UInt8.toNat_ofNat', Nat.mod_eq_of_lt fits]

theorem bit_eq_testBit (bytes : Bytes) (index : Nat) :
    bytes.bit index = (bytes (index / 8)).toNat.testBit (index % 8) := by
  have value : (bytes (index / 8) &&& mask index).toNat =
      ((bytes (index / 8)).toNat.testBit (index % 8)).toNat * 2 ^ (index % 8) := by
    rw [UInt8.toNat_and, mask_toNat, Nat.and_two_pow]
  have zero : bytes (index / 8) &&& mask index = 0 ↔
      (bytes (index / 8) &&& mask index).toNat = 0 := by
    rw [← UInt8.toNat_inj]
    rfl
  cases set : (bytes (index / 8)).toNat.testBit (index % 8) <;> simp [bit, zero, value, set]

theorem testBit_or_mask (byte : UInt8) (index position : Nat) :
    (byte ||| mask index).toNat.testBit position =
      (byte.toNat.testBit position || decide (index % 8 = position)) := by
  rw [UInt8.toNat_or, Nat.testBit_or, mask_toNat, Nat.testBit_two_pow]

theorem testBit_and_not_mask (byte : UInt8) (index : Nat) {position : Nat} (small : position < 8) :
    (byte &&& ~~~ mask index).toNat.testBit position =
      (byte.toNat.testBit position && !decide (index % 8 = position)) := by
  have negated : (~~~ mask index).toNat.testBit position = !decide (index % 8 = position) := by
    change (~~~ mask index).toBitVec.toNat.testBit position = _
    rw [UInt8.toBitVec_not, BitVec.testBit_toNat, BitVec.getLsbD_not, decide_eq_true small,
      Bool.true_and]
    change (!(mask index).toNat.testBit position) = _
    rw [mask_toNat, Nat.testBit_two_pow]
  rw [UInt8.toNat_and, Nat.testBit_and, negated]

theorem bit_setBit (bytes : Bytes) (index other : Nat) :
    (bytes.setBit index).bit other = (bytes.bit other || decide (index = other)) := by
  rw [bit_eq_testBit, bit_eq_testBit, setBit]
  by_cases same : other / 8 = index / 8
  · rw [same, overwrite_self, testBit_or_mask]
    congr 2
    rw [eq_iff_iff]
    omega
  · rw [overwrite_of_ne same, decide_eq_false (by omega), Bool.or_false]

theorem bit_clearBit (bytes : Bytes) (index other : Nat) :
    (bytes.clearBit index).bit other = (bytes.bit other && !decide (index = other)) := by
  rw [bit_eq_testBit, bit_eq_testBit, clearBit]
  by_cases same : other / 8 = index / 8
  · rw [same, overwrite_self, testBit_and_not_mask _ _ (Nat.mod_lt _ (by decide))]
    congr 3
    rw [eq_iff_iff]
    omega
  · rw [overwrite_of_ne same, decide_eq_false (by omega), Bool.not_false, Bool.and_true]

/-! Arrays of four-byte words. -/

def storeWords (bytes : Bytes) (offset : Nat) : List Nat → Bytes
  | [] => bytes
  | value :: rest => storeWords (bytes.store offset 4 value) (offset + 4) rest

theorem storeWords_outside {values : List Nat}
    (outside : index < offset ∨ offset + 4 * values.length ≤ index) :
    bytes.storeWords offset values index = bytes index := by
  induction values generalizing bytes offset with
  | nil => rfl
  | cons value rest ih =>
    rw [List.length_cons] at outside
    rw [storeWords, ih (by omega), store_outside (by omega)]

theorem load_storeWords {values : List Nat} (inside : index < values.length)
    (fits : ∀ value ∈ values, value < 2 ^ 32) :
    (bytes.storeWords offset values).load (offset + 4 * index) 4 = values[index] := by
  induction values generalizing bytes offset index with
  | nil => simp at inside
  | cons value rest ih =>
    rw [storeWords]
    cases index with
    | zero =>
      have same : ((bytes.store offset 4 value).storeWords (offset + 4) rest).load offset 4 =
          (bytes.store offset 4 value).load offset 4 :=
        load_congr fun index _ _ => storeWords_outside (by omega)
      simp only [Nat.mul_zero, Nat.add_zero, List.getElem_cons_zero]
      rw [same, load_store_fits (fits value (by simp))]
    | succ index =>
      have shifted : offset + 4 * (index + 1) = offset + 4 + 4 * index := by omega
      rw [shifted, ih (by simpa using inside) fun later member => fits later (by simp [member])]
      rfl

end Bytes

end Xv6.Data
