import Mathlib.Logic.Function.Basic

namespace Xv6.Data

/-! Changing a function at one point.

`Function.update` for plain function types, without the cast that lets it change a
dependent function: a state built by many changes can be evaluated.
-/

variable {α β : Type} [DecidableEq α]

def overwrite (function : α → β) (point : α) (value : β) : α → β := fun argument =>
  if argument = point then value else function argument

@[simp]
theorem overwrite_eq_update (function : α → β) (point : α) (value : β) :
    overwrite function point value = Function.update function point value := by
  funext argument
  rw [overwrite, Function.update_apply]

theorem overwrite_self (function : α → β) (point : α) (value : β) :
    overwrite function point value point = value := if_pos rfl

variable {function : α → β} {point : α} {value : β}

theorem overwrite_of_ne {argument : α} (different : argument ≠ point) :
    overwrite function point value argument = function argument :=
  if_neg different

theorem overwrite_eq_self (function : α → β) (point : α) :
    overwrite function point (function point) = function := by
  rw [overwrite_eq_update, Function.update_eq_self]

theorem overwrite_overwrite (function : α → β) (point : α) (value last : β) :
    overwrite (overwrite function point value) point last = overwrite function point last := by
  funext argument
  unfold overwrite
  split <;> rfl

theorem overwrite_cases {p : β → Prop} {argument : α}
    (found : p (overwrite function point value argument)) :
    argument = point ∧ p value ∨ argument ≠ point ∧ p (function argument) := by
  unfold overwrite at found
  split at found
  · exact .inl ⟨‹_›, found⟩
  · exact .inr ⟨‹_›, found⟩

theorem overwrite_rec {p : α → β → Prop} (new : p point value)
    (old : ∀ argument, argument ≠ point → p argument (function argument)) (argument : α) :
    p argument (overwrite function point value argument) := by
  unfold overwrite
  split
  · rename_i same
    exact same ▸ new
  · exact old argument ‹_›

theorem overwrite_map {γ : Type} (view : β → γ) (function : α → β) (point : α) (value : β)
    (argument : α) : view (overwrite function point value argument) =
      overwrite (fun argument => view (function argument)) point (view value) argument := by
  unfold overwrite
  split <;> rfl

/-- What the old and the new value agree on does not change. -/
theorem overwrite_congr {γ : Type} (view : β → γ) (same : view value = view (function point))
    (argument : α) :
    view (overwrite function point value argument) = view (function argument) := by
  unfold overwrite
  split
  · rename_i equal
    rw [equal, same]
  · rfl

end Xv6.Data
