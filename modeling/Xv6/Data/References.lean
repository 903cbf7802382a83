import Mathlib.Data.Fintype.Card
import Xv6.Data.Overwrite

namespace Xv6.Data

/-! Counting references.

How many places refer to an object, as places are filled and cleared one at a time.
-/

variable {Place Object : Type} [Fintype Place] [DecidableEq Object]

def references (target : Place → Option Object) (object : Object) : Nat :=
  (Finset.univ.filter fun place => target place = some object).card

theorem references_pos {target : Place → Option Object} {place : Place} {object : Object}
    (found : target place = some object) : 0 < references target object :=
  Finset.card_pos.mpr ⟨place, Finset.mem_filter.mpr ⟨Finset.mem_univ place, found⟩⟩

theorem references_eq_zero {target : Place → Option Object} {object : Object}
    (none : ∀ place, target place ≠ some object) : references target object = 0 := by
  rw [references, Finset.card_eq_zero, Finset.filter_eq_empty_iff]
  exact fun place _ => none place

variable [DecidableEq Place] {target : Place → Option Object} {place : Place} {object : Object}

theorem references_fill (vacant : target place = none) (other : Object) :
    references (overwrite target place (some object)) other =
      references target other + if other = object then 1 else 0 := by
  unfold references
  split
  · rename_i same
    subst same
    have outside : place ∉ Finset.univ.filter fun place => target place = some other := by
      simp [vacant]
    rw [← Finset.card_insert_of_notMem outside]
    congr 1
    ext argument
    by_cases here : argument = place
    · simp [here]
    · simp [here]
  · rename_i different
    congr 1
    ext argument
    by_cases here : argument = place
    · simp [here, vacant, Ne.symm different]
    · simp [here]

theorem references_clear (found : target place = some object) (other : Object) :
    references (overwrite target place none) other + (if other = object then 1 else 0) =
      references target other := by
  have back : overwrite (overwrite target place none) place (some object) = target := by
    funext argument
    by_cases here : argument = place
    · simp [here, found]
    · simp [here]
  have vacant : overwrite target place none place = none := overwrite_self _ _ _
  rw [← references_fill vacant other, back]

end Xv6.Data
