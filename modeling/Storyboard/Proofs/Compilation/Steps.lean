import Storyboard.Compilation

/-!
# Animated steps, taken apart

An animated step reports the problems of its timing, waits for its delay and then runs its
payload. The three equations at the end say so for each kind of payload, with the waiting as an
operation of its own (`Traversal.wait`). A keyframe list is written one step after the other
(`Traversal.writeKeyframe`).
-/

set_option autoImplicit false

namespace Storyboard

variable {ν : Type}

/-- Two changes of one timeline are one change. -/
theorem Stage.modify_modify (stage : Stage ν) (id : Nat) (first second : Timeline ν → Timeline ν) :
    (stage.modify id first).modify id second =
      stage.modify id fun timeline => second (first timeline) := by
  simp only [Stage.modify, List.modify_modify_eq]
  rfl

variable [Scalar ν]

/-- A keyframe list has one position for every step. -/
theorem length_keyframeOffsets (steps : List (StyleStep ν)) :
    (keyframeOffsets steps).length = steps.length := by
  simp only [keyframeOffsets]
  split
  · next declared => rw [List.length_map, declared.2]
  · rw [evenOffsets, List.length_map, List.length_range]

/-- Pairing the steps of a keyframe list with their positions loses no step. -/
theorem map_fst_zip_keyframeOffsets (steps : List (StyleStep ν)) :
    (steps.zip (keyframeOffsets steps)).map Prod.fst = steps :=
  List.map_fst_zip (Nat.le_of_eq (length_keyframeOffsets steps).symm)

/-- Nor does it lose a position. -/
theorem map_snd_zip_keyframeOffsets (steps : List (StyleStep ν)) :
    (steps.zip (keyframeOffsets steps)).map Prod.snd = keyframeOffsets steps :=
  List.map_snd_zip (Nat.le_of_eq (length_keyframeOffsets steps))

namespace Traversal

/-- Waits for a delay, at whose end everything written is carried along. -/
def wait (walk : Traversal ν) (delay : ν) : Traversal ν :=
  if 0 < delay then (walk.pass delay).modifyCurrent Timeline.snapshot else walk

/-- The walk in front of the payload of an animated step. -/
def awaitPayload (scope : Params ν) (timing : Timing ν) (walk : Traversal ν) : Traversal ν :=
  (walk.report (timing.resolve scope).2).wait (timing.resolve scope).1.delay

/-- Writes one step of a keyframe list at its offset. -/
def writeKeyframe (scope : Params ν) (duration : ν) (step : StyleStep ν × ν)
    (walk : Traversal ν) : Traversal ν :=
  (walk.modifyCurrent fun timeline => timeline.forwardTo (step.2 * duration)).writeStyle scope
    step.1 none

variable (scope : Params ν) (timing : Timing ν) (walk : Traversal ν)

theorem problems_awaitPayload :
    (walk.awaitPayload scope timing).problems = walk.problems ++ (timing.resolve scope).2 := by
  unfold awaitPayload wait
  split <;> rfl

/-- Waiting stays on the timeline. -/
theorem current_awaitPayload : (walk.awaitPayload scope timing).current = walk.current := by
  unfold awaitPayload wait
  split <;> rfl

theorem writeKeyframes_cons (duration : ν) (step : StyleStep ν × ν)
    (rest : List (StyleStep ν × ν)) :
    writeKeyframes scope duration (step :: rest) walk =
      writeKeyframes scope duration rest (walk.writeKeyframe scope duration step) :=
  rfl

theorem runAnimate_keyframes (steps : List (StyleStep ν)) :
    walk.runAnimate scope timing (some (.keyframes steps)) =
      (walk.awaitPayload scope timing).runKeyframes scope steps (timing.resolve scope).1 :=
  rfl

theorem runAnimate_style (step : StyleStep ν) :
    walk.runAnimate scope timing (some (.style step)) =
      ((walk.awaitPayload scope timing).pass (timing.resolve scope).1.duration).writeStyle scope
        step (timing.resolve scope).1.easing :=
  rfl

theorem runAnimate_empty :
    walk.runAnimate scope timing none =
      (walk.awaitPayload scope timing).runEmpty (timing.resolve scope).1 :=
  rfl

theorem visitSteps_append (settings : Settings ν) (before after : List (Tree ν)) :
    visitSteps settings scope (before ++ after) walk =
      visitSteps settings scope after (visitSteps settings scope before walk) := by
  induction before generalizing walk with
  | nil => rfl
  | cons step rest ih => exact ih (visit settings scope step walk)

end Traversal

end Storyboard
