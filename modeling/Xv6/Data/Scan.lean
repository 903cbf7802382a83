import Mathlib.Data.List.TakeWhile

namespace Xv6.Data

/-! # Scanning a list from a position on -/

variable {α : Type} {accepts : α → Bool} {items : List α} {start : Nat}

/-- The first position from `start` on whose item the test refuses, or the end. -/
def skipWhile (accepts : α → Bool) (items : List α) (start : Nat) : Nat :=
  start + ((items.drop start).takeWhile accepts).length

theorem le_skipWhile : start ≤ skipWhile accepts items start := Nat.le_add_right ..

theorem skipWhile_le (inside : start ≤ items.length) :
    skipWhile accepts items start ≤ items.length := by
  have taken := List.IsPrefix.length_le (List.takeWhile_prefix (l := items.drop start) accepts)
  rw [List.length_drop] at taken
  unfold skipWhile
  omega

theorem drop_skipWhile :
    items.drop (skipWhile accepts items start) = (items.drop start).dropWhile accepts := by
  have rest := congrArg (List.drop ((items.drop start).takeWhile accepts).length)
    (List.takeWhile_append_dropWhile (p := accepts) (l := items.drop start))
  rw [List.drop_left, List.drop_drop] at rest
  exact rest.symm

theorem take_skipWhile : (items.drop start).take (skipWhile accepts items start - start) =
    (items.drop start).takeWhile accepts := by
  have passed := congrArg (List.take ((items.drop start).takeWhile accepts).length)
    (List.takeWhile_append_dropWhile (p := accepts) (l := items.drop start))
  rw [List.take_left] at passed
  rw [skipWhile, Nat.add_sub_cancel_left, ← passed]

theorem skipWhile_accepts {position : Nat} (above : start ≤ position)
    (below : position < skipWhile accepts items start) :
    ∃ item, items[position]? = some item ∧ accepts item = true := by
  obtain ⟨offset, rfl⟩ := Nat.exists_eq_add_of_le above
  have inside : offset < ((items.drop start).takeWhile accepts).length := by
    unfold skipWhile at below
    omega
  have here : ((items.drop start).takeWhile accepts ++ (items.drop start).dropWhile accepts)[offset]? =
      ((items.drop start).takeWhile accepts)[offset]? := List.getElem?_append_left inside
  rw [List.takeWhile_append_dropWhile, List.getElem?_drop, List.getElem?_eq_getElem inside] at here
  exact ⟨_, here, List.mem_takeWhile_imp (List.getElem_mem inside)⟩

theorem skipWhile_refuses {item : α} (here : items[skipWhile accepts items start]? = some item) :
    accepts item = false := by
  have first : (items.drop (skipWhile accepts items start)).head? = some item := by
    rw [List.head?_drop, here]
  rw [drop_skipWhile] at first
  have stops := List.head?_dropWhile_not accepts (items.drop start)
  rw [first] at stops
  exact stops

theorem lt_skipWhile {item : α} (here : items[start]? = some item) (accepted : accepts item = true) :
    start < skipWhile accepts items start := by
  refine Nat.lt_of_le_of_ne le_skipWhile fun stays => ?_
  have refused := skipWhile_refuses (stays ▸ here)
  rw [accepted] at refused
  cases refused

/-- The values of a function up to the first that the test refuses. -/
theorem takeWhile_map_range {function : Nat → α} {count limit : Nat}
    (accepted : ∀ index, index < count → accepts (function index) = true) (below : count < limit)
    (refused : accepts (function count) = false) :
    ((List.range limit).map function).takeWhile accepts = (List.range count).map function := by
  obtain ⟨rest, rfl⟩ := Nat.exists_eq_add_of_lt below
  have split : List.range (count + rest + 1) =
      List.range count ++ (count :: (List.range rest).map (count + 1 + ·)) := by
    rw [Nat.add_assoc, List.range_add, List.range_succ_eq_map, List.map_cons, List.map_map]
    simp [Function.comp_def, Nat.add_assoc, Nat.add_comm 1]
  rw [split, List.map_append, List.map_cons, List.takeWhile_append_of_pos,
    List.takeWhile_cons_of_neg (by simp [refused]), List.append_nil]
  intro item member
  obtain ⟨index, inside, rfl⟩ := List.mem_map.mp member
  exact accepted index (List.mem_range.mp inside)

end Xv6.Data
