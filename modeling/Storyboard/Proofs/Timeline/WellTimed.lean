import Mathlib.Algebra.Order.Field.Rat
import Mathlib.Data.List.Nodup
import Storyboard.Number.Scalar
import Storyboard.Proofs.Timeline.Order

/-!
# Well-timed timelines

Read with exact numbers, the keyframes of a timeline stand at distinct times from zero on, one of
them at zero and one under the cursor, and the span starts at zero or later. Moving the cursor to
a time that is not negative keeps a timeline well-timed (`Timeline.Skeleton.WellTimed.seek`), and
writing cannot disturb it, because it is a statement about skeletons. All exact numbers are settled,
so a well-timed timeline is a settled one (`Timeline.Skeleton.WellTimed.settled`).

A stage is well-timed when all its timelines are. Creating a timeline, forking one and moving a
cursor keep a stage well-timed as long as the times handed in are not negative.
-/

set_option autoImplicit false

namespace Storyboard

/-- The larger of two exact numbers is their maximum. -/
theorem Scalar.larger_exact (first second : Rat) :
    Scalar.larger first second = max first second := by
  unfold Scalar.larger
  split
  · next above => exact (max_eq_left above.le).symm
  · next below => simpa using (max_eq_right (not_lt.1 below)).symm

/-! ## Timelines -/

namespace Timeline

/-- The keyframes stand at distinct times from zero on, one of them at zero and one under the
cursor. -/
structure Skeleton.WellTimed (skeleton : Skeleton Rat) : Prop where
  start_nonneg : 0 ≤ skeleton.start
  distinct : skeleton.times.Nodup
  times_nonneg : ∀ time ∈ skeleton.times, 0 ≤ time
  opened : 0 ∈ skeleton.times
  underCursor : skeleton.times[skeleton.current]? = some skeleton.cursor

namespace Skeleton.WellTimed

variable {skeleton : Skeleton Rat}

theorem cursor_nonneg (timed : skeleton.WellTimed) : 0 ≤ skeleton.cursor :=
  timed.times_nonneg _ (List.mem_of_getElem? timed.underCursor)

/-- Exact numbers are settled. -/
theorem settled (timed : skeleton.WellTimed) : skeleton.Settled where
  distinct := timed.distinct.imp fun different => beq_eq_false_iff_ne.2 different
  nonneg time member := Scalar.atMost_exact.2 (timed.times_nonneg time member)
  settled time _ := zero_add time
  opened := timed.opened
  underCursor := timed.underCursor

theorem of_settled (settled : skeleton.Settled) (start : 0 ≤ skeleton.start) :
    skeleton.WellTimed where
  start_nonneg := start
  distinct := settled.distinct.imp fun different => beq_eq_false_iff_ne.1 different
  times_nonneg time member := Scalar.atMost_exact.1 (settled.nonneg time member)
  opened := settled.opened
  underCursor := settled.underCursor

/-- Moving the cursor to a time from zero on keeps a timeline well-timed. -/
theorem seek (timed : skeleton.WellTimed) {time : Rat} (nonneg : 0 ≤ time) :
    (skeleton.seek time).WellTimed := by
  refine of_settled (timed.settled.seek (Scalar.atMost_exact.2 nonneg) (zero_add time)) ?_
  exact timed.start_nonneg.trans_eq (skeleton.start_seek time).symm

end Skeleton.WellTimed

/-- A blank timeline from a time that is not negative is well-timed. -/
theorem wellTimed_blank {start : Rat} (nonneg : 0 ≤ start) (inherited : Styles Rat) :
    (blank start inherited).skeleton.WellTimed :=
  .of_settled (settled_skeleton_blank start inherited) nonneg

theorem now_nonneg {timeline : Timeline Rat} (timed : timeline.skeleton.WellTimed) :
    0 ≤ timeline.now :=
  add_nonneg timed.start_nonneg timed.cursor_nonneg

theorem wellTimed_forwardTo {timeline : Timeline Rat} (timed : timeline.skeleton.WellTimed)
    (time : Rat) : (timeline.forwardTo time).skeleton.WellTimed := by
  rw [forwardTo, skeleton_seek, Scalar.larger_exact]
  exact timed.seek (le_max_right time 0)

theorem wellTimed_forwardFrame {timeline : Timeline Rat} (timed : timeline.skeleton.WellTimed)
    {length : Rat} (nonneg : 0 ≤ length) : (timeline.forwardFrame length).skeleton.WellTimed := by
  rw [forwardFrame, skeleton_seek]
  exact timed.seek (add_nonneg timed.cursor_nonneg nonneg)

end Timeline

/-! ## Stages -/

namespace Stage

/-- Every timeline of the stage is well-timed. -/
def WellTimed (stage : Stage Rat) : Prop :=
  ∀ skeleton ∈ stage.skeletons, skeleton.WellTimed

namespace WellTimed

variable {stage : Stage Rat}

/-- A number that the stage has not given out stands for a blank timeline, which is well-timed
too. -/
theorem timeline (timed : stage.WellTimed) (id : Nat) : (stage.timeline id).skeleton.WellTimed := by
  unfold Stage.timeline Stage.get?
  cases found : stage.timelines[id]? with
  | none => exact Timeline.wellTimed_blank (le_refl 0) ∅
  | some timeline => exact timed _ (List.mem_map_of_mem (List.mem_of_getElem? found))

theorem now_nonneg (timed : stage.WellTimed) (id : Nat) : 0 ≤ stage.now id :=
  Timeline.now_nonneg (timed.timeline id)

theorem push (timed : stage.WellTimed) {timeline : Timeline Rat}
    (added : timeline.skeleton.WellTimed) : (stage.push timeline).WellTimed := by
  rw [WellTimed, skeletons_push]
  exact List.forall_mem_append.2 ⟨timed, List.forall_mem_singleton.2 added⟩

/-- A fork is well-timed when the time at which it is told to start is not negative. -/
theorem fork (timed : stage.WellTimed) (parent : Nat) {start : Option Rat}
    (nonneg : ∀ time, start = some time → 0 ≤ time) (inherits : Bool) :
    (stage.fork parent start inherits).WellTimed := by
  refine timed.push (Timeline.wellTimed_blank ?_ _)
  cases start with
  | none => exact timed.now_nonneg parent
  | some time => exact nonneg time rfl

/-- Changing a timeline keeps a stage well-timed when the change keeps timelines well-timed. -/
theorem modify (timed : stage.WellTimed) (id : Nat) {change : Timeline Rat → Timeline Rat}
    (kept : ∀ timeline, timeline.skeleton.WellTimed → (change timeline).skeleton.WellTimed) :
    (stage.modify id change).WellTimed :=
  List.forall_mem_map.2 (forall_mem_modify (List.forall_mem_map.1 timed) id kept)

end WellTimed

end Stage

end Storyboard
