import Storyboard.Validation

/-!
# The problems of timings and placeholders

A timing and a text that is filled have problems of their own, which are about nothing else in a
tree (`Problem.OfText`): a timing that is no expression or takes negative time, and a placeholder
without a value. They are never about collisions, nor about the offsets of a keyframe list.
-/

set_option autoImplicit false

namespace Storyboard

variable {ν : Type}

/-- The problems that a timing, or a text that is filled, can have. -/
inductive Problem.OfText : Problem ν → Prop where
  | invalidTiming (source : String) : OfText (.invalidTiming source)
  | negativeDuration : OfText .negativeDuration
  | negativeDelay : OfText .negativeDelay
  | missingParam (name : String) : OfText (.missingParam name)

variable [Scalar ν]

theorem Template.ofText_fill (scope : Params ν) (text : String) :
    ∀ problem ∈ (fill scope text).2, problem.OfText := by
  intro problem member
  obtain ⟨segment, _, reported⟩ := List.mem_flatMap.1 member
  cases segment with
  | plain _ => exact absurd reported List.not_mem_nil
  | placeholder name _ =>
    simp only [Segment.problems] at reported
    split at reported
    · exact absurd reported List.not_mem_nil
    · rw [List.mem_singleton.1 reported]
      exact .missingParam name

theorem Value.ofText_fill (scope : Params ν) (value : Value ν) :
    ∀ problem ∈ (value.fill scope).2, problem.OfText := by
  cases value with
  | number _ => exact List.forall_mem_nil _
  | text words =>
    simp only [fill]
    split
    · split
      · exact List.forall_mem_nil _
      · exact Template.ofText_fill scope words
    · exact List.forall_mem_nil _

theorem Timings.ofText_checked (timings : Timings ν) :
    ∀ problem ∈ timings.checked.2, problem.OfText := by
  intro problem member
  simp only [checked, List.mem_append] at member
  rcases member with duration | delay
  · split at duration
    · rw [List.mem_singleton.1 duration]
      exact .negativeDuration
    · exact absurd duration List.not_mem_nil
  · split at delay
    · rw [List.mem_singleton.1 delay]
      exact .negativeDelay
    · exact absurd delay List.not_mem_nil

theorem Timing.ofText_resolveText (source : String) :
    ∀ problem ∈ (resolveText source : Timings ν × List (Problem ν)).2, problem.OfText := by
  unfold resolveText
  split
  · next timings _ => exact timings.ofText_checked
  · intro problem member
    rw [List.mem_singleton.1 member]
    exact .invalidTiming source

theorem Timing.ofText_resolve (scope : Params ν) (timing : Timing ν) :
    ∀ problem ∈ (timing.resolve scope).2, problem.OfText := by
  cases timing with
  | millis duration => exact Timings.ofText_checked _
  | resolved timings => exact timings.ofText_checked
  | expression source =>
    simp only [resolve]
    split
    · split
      · exact Timing.ofText_resolveText _
      · exact Template.ofText_fill scope source
    · exact Timing.ofText_resolveText source

end Storyboard
