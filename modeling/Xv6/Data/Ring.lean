import Mathlib.Data.BitVec
import Mathlib.Tactic.Abel
import Xv6.Data.Overwrite

namespace Xv6.Data

/-! Ring buffers indexed by counters that wrap.

The counters are machine integers that only ever grow; a slot is a counter modulo
the capacity.  Nothing goes wrong when a counter wraps, as long as the capacity
divides the number of counter values.
-/

section

variable {width : Nat}

/-- How far `write` is ahead of `read`. -/
def gap (read write : BitVec width) : Nat := (write - read).toNat

@[simp]
theorem gap_self (read : BitVec width) : gap read read = 0 := by
  simp [gap]

variable {read write : BitVec width}

theorem gap_eq_zero : gap read write = 0 ↔ read = write := by
  rw [gap, ← BitVec.toNat_zero (w := width), BitVec.toNat_inj]
  exact sub_eq_zero.trans eq_comm

theorem gap_lt (read write : BitVec width) : gap read write < 2 ^ width := (write - read).isLt

/-- `write == read + count`, the test for a full buffer. -/
theorem gap_eq_iff {count : Nat} (small : count < 2 ^ width) :
    gap read write = count ↔ write = read + BitVec.ofNat width count := by
  constructor
  · rintro rfl
    rw [gap, BitVec.ofNat_toNat, BitVec.setWidth_eq, BitVec.add_comm, BitVec.sub_add_cancel]
  · rintro rfl
    rw [gap, BitVec.add_comm, BitVec.add_sub_cancel, BitVec.toNat_ofNat, Nat.mod_eq_of_lt small]

theorem gap_write_succ (below : gap read write + 1 < 2 ^ width) :
    gap read (write + BitVec.ofNat width 1) = gap read write + 1 := by
  have shifted : write + BitVec.ofNat width 1 - read = write - read + BitVec.ofNat width 1 := by
    abel
  have one : (BitVec.ofNat width 1).toNat = 1 := by
    rw [BitVec.toNat_ofNat, Nat.mod_eq_of_lt (by omega)]
  rw [gap] at below ⊢
  rw [shifted, BitVec.toNat_add, one, Nat.mod_eq_of_lt below]
  rfl

theorem gap_read_succ (behind : read ≠ write) :
    gap read write = gap (read + BitVec.ofNat width 1) write + 1 := by
  have shifted : write - read = write - (read + BitVec.ofNat width 1) + BitVec.ofNat width 1 := by
    abel
  have positive : gap read write ≠ 0 := fun zero => behind (gap_eq_zero.mp zero)
  have bound := gap_lt read write
  have wide : 1 < 2 ^ width := by omega
  have one : (BitVec.ofNat width 1).toNat = 1 := by
    rw [BitVec.toNat_ofNat, Nat.mod_eq_of_lt wide]
  have last := gap_lt (read + BitVec.ofNat width 1) write
  unfold gap at positive last ⊢
  rw [shifted, BitVec.toNat_add, one] at positive ⊢
  refine Nat.mod_eq_of_lt (Nat.lt_of_le_of_ne last fun wrapped => positive ?_)
  rw [wrapped, Nat.mod_self]

theorem gap_write_pred (behind : read ≠ write) :
    gap read write = gap read (write - BitVec.ofNat width 1) + 1 := by
  have shifted : write - BitVec.ofNat width 1 - read = write - (read + BitVec.ofNat width 1) := by
    abel
  rw [gap_read_succ behind, gap, gap, shifted]

theorem gap_add {first second third : BitVec width}
    (below : gap first second + gap second third < 2 ^ width) :
    gap first third = gap first second + gap second third := by
  have sum : third - first = second - first + (third - second) := by abel
  rw [gap, sum, BitVec.toNat_add]
  exact Nat.mod_eq_of_lt below

end

variable {α : Type} {width : Nat}

/-- The slot of the item `index` places after the counter. -/
def slot (capacity : Nat) (counter : BitVec width) (index : Nat) : Nat :=
  (counter.toNat + index) % capacity

/-- What is in the buffer, oldest first. -/
def contents (capacity : Nat) (slots : Nat → α) (read write : BitVec width) : List α :=
  (List.range (gap read write)).map fun index => slots (slot capacity read index)

theorem contents_self (capacity : Nat) (slots : Nat → α) (read : BitVec width) :
    contents capacity slots read read = [] := by
  rw [contents, gap_self]
  rfl

section

variable {capacity : Nat} {slots : Nat → α} {read write : BitVec width}

@[simp]
theorem contents_length : (contents capacity slots read write).length = gap read write := by
  simp [contents]

theorem slot_succ (divides : capacity ∣ 2 ^ width) (wide : 1 < 2 ^ width) (index : Nat) :
    slot capacity (read + BitVec.ofNat width 1) index = slot capacity read (index + 1) := by
  have one : (BitVec.ofNat width 1).toNat = 1 := by
    rw [BitVec.toNat_ofNat, Nat.mod_eq_of_lt wide]
  rw [slot, slot, BitVec.toNat_add, one, Nat.add_mod, Nat.mod_mod_of_dvd _ divides, ← Nat.add_mod,
    Nat.add_assoc, Nat.add_comm 1]

theorem slot_gap (divides : capacity ∣ 2 ^ width) :
    slot capacity read (gap read write) = write.toNat % capacity := by
  have sum : write = read + (write - read) := by
    rw [BitVec.add_comm, BitVec.sub_add_cancel]
  have value : write.toNat = (read.toNat + gap read write) % 2 ^ width := by
    have taken := congrArg BitVec.toNat sum
    rwa [BitVec.toNat_add] at taken
  rw [slot, value, Nat.mod_mod_of_dvd _ divides]

theorem slot_inj {first second : Nat} (firstInside : first < capacity)
    (secondInside : second < capacity)
    (same : slot capacity read first = slot capacity read second) : first = second := by
  have reduced := Nat.ModEq.add_left_cancel' read.toNat same
  rwa [Nat.ModEq, Nat.mod_eq_of_lt firstInside, Nat.mod_eq_of_lt secondInside] at reduced

section

variable (divides : capacity ∣ 2 ^ width)

include divides

/-- The slot at the write counter of a buffer that is not full holds no item. -/
theorem slot_ne_write (room : gap read write < capacity) {index : Nat}
    (before : index < gap read write) :
    slot capacity read index ≠ write.toNat % capacity := by
  intro same
  have last : slot capacity read (gap read write) = write.toNat % capacity := slot_gap divides
  rw [← last] at same
  exact Nat.ne_of_lt before (slot_inj (Nat.lt_trans before room) room same)

theorem contents_overwrite (room : gap read write < capacity) (item : α) :
    contents capacity (overwrite slots (write.toNat % capacity) item) read write =
      contents capacity slots read write :=
  List.map_congr_left fun _ member =>
    overwrite_of_ne (slot_ne_write divides room (List.mem_range.mp member))

/-- Advancing the write counter adds what is in its slot. -/
theorem contents_advance (below : gap read write + 1 < 2 ^ width) :
    contents capacity slots read (write + BitVec.ofNat width 1) =
      contents capacity slots read write ++ [slots (write.toNat % capacity)] := by
  rw [contents, contents, gap_write_succ below, List.range_succ, List.map_append, List.map_singleton,
    slot_gap divides]

/-- Moving the write counter back drops the youngest item. -/
theorem contents_retract (behind : read ≠ write) : contents capacity slots read write =
      contents capacity slots read (write - BitVec.ofNat width 1) ++
        [slots ((write - BitVec.ofNat width 1).toNat % capacity)] := by
  have below := gap_write_pred behind ▸ gap_lt read write
  rw [← contents_advance divides below, BitVec.sub_add_cancel]

/-- Storing an item at the write counter of a buffer that is not full. -/
theorem contents_push (room : gap read write < capacity) (below : gap read write + 1 < 2 ^ width)
    (item : α) :
    contents capacity (overwrite slots (write.toNat % capacity) item) read (write + BitVec.ofNat width 1) =
      contents capacity slots read write ++ [item] := by
  rw [contents_advance divides below, contents_overwrite divides room, overwrite_self]

/-- Taking an item from the read counter of a buffer that is not empty. -/
theorem contents_pop (behind : read ≠ write) : contents capacity slots read write =
      slots (read.toNat % capacity) :: contents capacity slots (read + BitVec.ofNat width 1) write := by
  have wide : 1 < 2 ^ width := by
    have bound := gap_lt read write
    have step := gap_read_succ behind
    omega
  rw [contents, contents, gap_read_succ behind, List.range_succ_eq_map, List.map_cons, List.map_map]
  congr 1
  refine List.map_congr_left fun index _ => ?_
  rw [Function.comp_apply, slot_succ divides wide]

/-- A counter between the two cuts the buffer in two. -/
theorem contents_append {middle : BitVec width}
    (below : gap read middle + gap middle write < 2 ^ width) :
    contents capacity slots read write =
      contents capacity slots read middle ++ contents capacity slots middle write := by
  have shifted (index : Nat) :
      slot capacity read (gap read middle + index) = slot capacity middle index := by
    have start : slot capacity read (gap read middle) = middle.toNat % capacity := slot_gap divides
    calc slot capacity read (gap read middle + index)
      _ = (slot capacity read (gap read middle) + index) % capacity := by
        rw [slot, slot, Nat.mod_add_mod, Nat.add_assoc]
      _ = slot capacity middle index := by rw [start, Nat.mod_add_mod, slot]
  rw [contents, contents, contents, gap_add below, List.range_add, List.map_append, List.map_map]
  simp only [Function.comp_def, shifted]

end

end

end Xv6.Data
