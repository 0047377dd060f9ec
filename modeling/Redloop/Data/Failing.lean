/-
# How computations fail

A computation that may fail is said to fail within a class of errors when every error it
ends with is in the class. A sequence of computations fails within it when its parts do.
-/

import Mathlib.Logic.Basic

namespace Redloop

universe u v

variable {ε : Type u} {α β : Type v} {allowed : ε → Prop} {first : Except ε α}
  {next : α → Except ε β} {error : ε}

/-- Every error of the computation is in the class. -/
def FailsWithin (allowed : ε → Prop) (result : Except ε α) : Prop :=
  ∀ error, result = .error error → allowed error

theorem failsWithin_ok (value : α) : FailsWithin allowed (.ok value) := by
  intro error herror
  cases herror

theorem failsWithin_error (herror : allowed error) :
    FailsWithin allowed (.error error : Except ε α) := by
  intro found hfound
  cases hfound
  exact herror

/-- A sequence fails within a class when its parts do. -/
theorem FailsWithin.bind (hfirst : FailsWithin allowed first)
    (hnext : ∀ value, FailsWithin allowed (next value)) : FailsWithin allowed (first >>= next) := by
  cases first with
  | error found => exact failsWithin_error (hfirst found rfl)
  | ok value => exact hnext value

/-- A change of the value keeps the errors. -/
theorem FailsWithin.map (hfirst : FailsWithin allowed first) (change : α → β) :
    FailsWithin allowed (first.map change) := by
  cases first with
  | error found => exact failsWithin_error (hfirst found rfl)
  | ok value => exact failsWithin_ok (change value)

end Redloop
