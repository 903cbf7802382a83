import Mathlib.Init

namespace Xv6.Data

/-! Postconditions of computations that may stop with an error. -/

variable {Error Value Result : Type}

/-- What holds of the result, and which errors can stop the computation. -/
def Ensures (errors : Error → Prop) (returns : Value → Prop) : Except Error Value → Prop
  | .ok value => returns value
  | .error reason => errors reason

variable {errors : Error → Prop} {returns : Value → Prop}

@[simp]
theorem ensures_ok {value : Value} : Ensures errors returns (.ok value) ↔ returns value := Iff.rfl

variable {next : Value → Except Error Result}

@[simp]
theorem ok_bind {value : Value} : (Except.ok value >>= next) = next value := rfl

variable {computation : Except Error Value} {property : Result → Prop}

theorem Ensures.bind (first : Ensures errors returns computation)
    (second : ∀ value, returns value → Ensures errors property (next value)) :
    Ensures errors property (computation >>= next) := by
  cases computation with
  | ok value => exact second value first
  | error reason => exact first

/-- The second part may use what the first one has returned. -/
theorem Ensures.bind_of_ok
    (second : ∀ value, computation = .ok value → Ensures (fun _ => True) property (next value)) :
    Ensures (fun _ => True) property (computation >>= next) := by
  cases computation with
  | ok value => exact second value rfl
  | error reason => exact trivial

theorem Ensures.map {function : Value → Result}
    (ensured : Ensures errors (fun value => property (function value)) computation) :
    Ensures errors property (computation.map function) := by
  cases computation with
  | ok value | error reason => exact ensured

theorem Ensures.and {otherErrors : Error → Prop} {property : Value → Prop}
    (first : Ensures errors returns computation)
    (second : Ensures otherErrors property computation) :
    Ensures (fun reason => errors reason ∧ otherErrors reason)
      (fun value => returns value ∧ property value) computation := by
  cases computation with
  | ok value | error reason => exact ⟨first, second⟩

theorem Ensures.mono {weaker : Value → Prop} (ensured : Ensures errors returns computation)
    (implied : ∀ value, returns value → weaker value) :
    Ensures errors weaker computation := by
  cases computation with
  | ok value => exact implied value ensured
  | error reason => exact ensured

theorem Ensures.mono_errors {weaker : Error → Prop} (ensured : Ensures errors returns computation)
    (implied : ∀ reason, errors reason → weaker reason) :
    Ensures weaker returns computation := by
  cases computation with
  | ok value => exact ensured
  | error reason => exact implied reason ensured

theorem Ensures.exists_ok (ensured : Ensures errors returns computation)
    (never : ∀ reason, ¬errors reason) :
    ∃ value, computation = .ok value ∧ returns value := by
  cases computation with
  | ok value => exact ⟨value, rfl, ensured⟩
  | error reason => exact absurd ensured (never reason)

end Xv6.Data
