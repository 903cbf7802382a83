import Mathlib.Logic.Function.Basic
import Mathlib.Data.List.Basic

namespace Xv6.Data

/-! Sequences of writes to a store.

A store is a total map, and a list of writes is applied from left to right, so
a location ends up with the last value written to it.  `lastWrite` names that
value; two stores agree after the same writes wherever one of the writes lands
or where they agreed before.
-/

variable {Location Value : Type} [DecidableEq Location]

/-- Apply the writes in order. -/
def applyWrites : List (Location × Value) → (Location → Value) → Location → Value
  | [], store => store
  | (location, value) :: rest, store => applyWrites rest (Function.update store location value)

/-- The value of the last write to a location, if there is one. -/
def lastWrite (location : Location) : List (Location × Value) → Option Value
  | [] => none
  | (written, value) :: rest =>
    (lastWrite location rest).or (if written = location then some value else none)

theorem applyWrites_append (first second : List (Location × Value)) (store : Location → Value) :
    applyWrites (first ++ second) store = applyWrites second (applyWrites first store) := by
  induction first generalizing store with
  | nil => rfl
  | cons write rest ih => exact ih _

theorem applyWrites_eq_lastWrite (writes : List (Location × Value)) (store : Location → Value)
    (location : Location) :
    applyWrites writes store location = (lastWrite location writes).getD (store location) := by
  induction writes generalizing store with
  | nil => rfl
  | cons write rest ih =>
    obtain ⟨written, value⟩ := write
    rw [applyWrites, ih, lastWrite]
    cases later : lastWrite location rest with
    | some last => rfl
    | none =>
      by_cases same : written = location
      · subst same
        simp
      · simp [same, Function.update_of_ne (Ne.symm same)]

variable {location : Location} {writes : List (Location × Value)}

theorem lastWrite_eq_none_iff :
    lastWrite location writes = none ↔ location ∉ writes.map Prod.fst := by
  induction writes with
  | nil => simp [lastWrite]
  | cons write rest ih =>
    obtain ⟨written, value⟩ := write
    by_cases same : written = location
    · simp [lastWrite, same]
    · simp [lastWrite, same, ih, Ne.symm same]

theorem lastWrite_mem {value : Value} (last : lastWrite location writes = some value) :
    (location, value) ∈ writes := by
  induction writes with
  | nil => simp [lastWrite] at last
  | cons write rest ih =>
    obtain ⟨written, first⟩ := write
    cases later : lastWrite location rest with
    | some found =>
      simp only [lastWrite, later, Option.some_or, Option.some.injEq] at last
      subst last
      exact List.mem_cons_of_mem _ (ih later)
    | none =>
      by_cases same : written = location
      · simp only [lastWrite, later, same, Option.none_or, if_true, Option.some.injEq] at last
        subst last same
        exact List.mem_cons_self
      · simp [lastWrite, later, same] at last

theorem applyWrites_of_not_mem {store : Location → Value}
    (untouched : location ∉ writes.map Prod.fst) :
    applyWrites writes store location = store location := by
  rw [applyWrites_eq_lastWrite, lastWrite_eq_none_iff.mpr untouched, Option.getD_none]

/-- Writes erase every difference between two stores at the locations they reach. -/
theorem applyWrites_congr {left right : Location → Value}
    (agree : location ∈ writes.map Prod.fst ∨ left location = right location) :
    applyWrites writes left location = applyWrites writes right location := by
  rw [applyWrites_eq_lastWrite, applyWrites_eq_lastWrite]
  cases last : lastWrite location writes with
  | some value => rfl
  | none =>
    rcases agree with written | same
    · exact absurd written (lastWrite_eq_none_iff.mp last)
    · exact same

/-- When every write to a location carries the same value, that value is the result. -/
theorem applyWrites_of_all {store : Location → Value} {value : Value}
    (written : location ∈ writes.map Prod.fst)
    (all : ∀ other, (location, other) ∈ writes → other = value) :
    applyWrites writes store location = value := by
  rw [applyWrites_eq_lastWrite]
  cases last : lastWrite location writes with
  | some found => exact all found (lastWrite_mem last)
  | none => exact absurd written (lastWrite_eq_none_iff.mp last)

end Xv6.Data
