import Mathlib.Data.List.Basic

namespace Xv6.Data

/-! # Writing into the middle of a list -/

variable {α : Type}

/-- The list with `new` written over it from position `start` on, growing if necessary. -/
def splice (old : List α) (start : Nat) (new : List α) : List α :=
  old.take start ++ new ++ old.drop (start + new.length)

theorem map_range_getElem? (f : Nat → α) (n index : Nat) :
    ((List.range n).map f)[index]? = if index < n then some (f index) else none := by
  rw [List.getElem?_map]
  by_cases inside : index < n
  · rw [if_pos inside, List.getElem?_range inside]
    rfl
  · rw [if_neg inside, List.getElem?_eq_none (by simpa using inside)]
    rfl

variable {old new : List α} {start : Nat}

theorem splice_getElem? (inside : start ≤ old.length) (index : Nat) :
    (splice old start new)[index]? =
      if start ≤ index ∧ index < start + new.length then new[index - start]? else old[index]? := by
  have front : (old.take start).length = start := by
    rw [List.length_take]
    omega
  rw [splice, List.append_assoc, List.getElem?_append, front]
  split
  · rename_i before
    rw [if_neg (by omega), List.getElem?_take_of_lt before]
  · rename_i after
    rw [List.getElem?_append]
    split
    · rw [if_pos (by omega)]
    · rw [if_neg (by omega), List.getElem?_drop]
      congr 1
      omega

theorem splice_end : splice old old.length new = old ++ new := by
  rw [splice, List.take_length, List.drop_eq_nil_of_le (Nat.le_add_right ..), List.append_nil]

theorem splice_before {position count : Nat} (inside : start ≤ old.length)
    (before : position + count ≤ start) :
    ((splice old start new).drop position).take count = (old.drop position).take count := by
  apply List.ext_getElem?
  intro index
  rw [List.getElem?_take, List.getElem?_take]
  split
  · rw [List.getElem?_drop, List.getElem?_drop, splice_getElem? inside, if_neg (by omega)]
  · rfl

theorem splice_self (inside : start ≤ old.length) :
    ((splice old start new).drop start).take new.length = new := by
  apply List.ext_getElem?
  intro index
  rw [List.getElem?_take]
  split
  · rw [List.getElem?_drop, splice_getElem? inside, if_pos (by omega), Nat.add_sub_cancel_left]
  · rw [List.getElem?_eq_none (by omega)]

end Xv6.Data
