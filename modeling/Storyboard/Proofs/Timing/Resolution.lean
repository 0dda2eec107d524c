import Mathlib.Algebra.Order.Field.Basic
import Mathlib.Algebra.Order.Field.Rat
import Storyboard.Number.Scalar
import Storyboard.Timing

/-!
# What timings resolve to

However a timing is authored, it resolves to a duration and a delay that are not negative: a
negative amount is replaced by zero, and what cannot be read takes no time.

A clock has no unit of its own. Exact times that are all multiplied by one positive factor are
compared as before, and the larger of two is the multiple of the larger one, so nothing that
depends on the order of times can tell the two clocks apart. A timing that is given in numbers can
be scaled (`Timing.scale`), and it resolves to the scaled amounts with the same problems
(`Timing.resolve_scale`). A timing expression cannot: its amounts are read from a text and rounded
down.
-/

set_option autoImplicit false

namespace Storyboard

/-! ## Resolved timings are not negative -/

/-- Neither the duration nor the delay is negative. -/
structure Timings.Nonnegative (timings : Timings Rat) : Prop where
  duration : 0 ≤ timings.duration
  delay : 0 ≤ timings.delay

theorem Timings.nonnegative_none : (Timings.none : Timings Rat).Nonnegative :=
  ⟨le_refl 0, le_refl 0⟩

/-- A checked amount is not negative. -/
theorem Timings.nonnegative_checked (timings : Timings Rat) :
    timings.checked.1.Nonnegative := by
  have amount : ∀ time : Rat, 0 ≤ if time < 0 then 0 else time := by
    intro time
    split
    · exact le_refl 0
    · next above => exact not_lt.1 above
  exact ⟨amount timings.duration, amount timings.delay⟩

namespace Timing

theorem nonnegative_resolveText (source : String) :
    (resolveText source : Timings Rat × List (Problem Rat)).1.Nonnegative := by
  unfold resolveText
  split
  · exact Timings.nonnegative_checked _
  · exact Timings.nonnegative_none

/-- A timing resolves to amounts that are not negative. -/
theorem nonnegative_resolve (timing : Timing Rat) (scope : Params Rat) :
    (timing.resolve scope).1.Nonnegative := by
  cases timing with
  | millis duration => exact Timings.nonnegative_checked _
  | resolved timings => exact Timings.nonnegative_checked timings
  | expression source =>
    simp only [resolve]
    split
    · split
      · exact nonnegative_resolveText _
      · exact Timings.nonnegative_none
    · exact nonnegative_resolveText source

end Timing

/-! ## Scaled times -/

variable {factor : Rat}

/-! ### Exact numbers -/

namespace Scalar

variable (positive : 0 < factor) (first second : Rat)

include positive

theorem below_scale : factor * first < factor * second ↔ first < second :=
  mul_lt_mul_iff_right₀ positive

theorem beq_scale : (factor * first == factor * second) = (first == second) := by
  rw [Bool.eq_iff_iff, beq_iff_eq, beq_iff_eq]
  exact mul_right_inj' positive.ne'

theorem larger_scale :
    larger (factor * first) (factor * second) = factor * larger first second := by
  simp only [larger, below_scale positive, beq_self_eq_true, if_true]
  split <;> rfl

theorem smaller_scale :
    smaller (factor * first) (factor * second) = factor * smaller first second := by
  simp only [smaller, below_scale positive, beq_self_eq_true, if_true]
  split <;> rfl

end Scalar

/-! ### Timings -/

/-- The timings with both amounts multiplied. -/
def Timings.scale (factor : Rat) (timings : Timings Rat) : Timings Rat :=
  { timings with duration := factor * timings.duration, delay := factor * timings.delay }

/-- The timing with its amounts multiplied, if they are given in numbers. -/
def Timing.scale (factor : Rat) : Timing Rat → Timing Rat
  | .millis duration => .millis (factor * duration)
  | .expression source => .expression source
  | .resolved timings => .resolved (timings.scale factor)

/-- The timing is given in numbers and not as an expression. -/
def Timing.InNumbers : Timing Rat → Prop
  | .expression _ => False
  | .millis _ | .resolved _ => True

instance : DecidablePred Timing.InNumbers
  | .expression _ => .isFalse fun numbers => numbers
  | .millis _ | .resolved _ => .isTrue trivial

namespace Timings

variable (timings : Timings Rat)

theorem total_scale : (timings.scale factor).total = factor * timings.total :=
  (mul_add factor timings.duration timings.delay).symm

theorem checked_scale (positive : 0 < factor) :
    (timings.scale factor).checked = (timings.checked.1.scale factor, timings.checked.2) := by
  have negative : ∀ time : Rat, factor * time < 0 ↔ time < 0 := fun time => by
    rw [← Scalar.below_scale positive time 0, mul_zero]
  simp only [checked, scale, negative, mul_ite, mul_zero]

end Timings

/-- **A scaled timing resolves to the scaled amounts and to the same problems.** -/
theorem Timing.resolve_scale (positive : 0 < factor) (scope : Params Rat) {timing : Timing Rat}
    (numbers : timing.InNumbers) :
    (timing.scale factor).resolve scope =
      ((timing.resolve scope).1.scale factor, (timing.resolve scope).2) := by
  cases timing with
  | expression source => exact numbers.elim
  | resolved timings => exact timings.checked_scale positive
  | millis duration =>
    have checked := (⟨duration, 0, none⟩ : Timings Rat).checked_scale positive
    rw [Timings.scale, mul_zero] at checked
    exact checked

end Storyboard
