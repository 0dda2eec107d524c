import Storyboard.Compilation
import Storyboard.Proofs.Compilation.Holdings
import Storyboard.Proofs.Compilation.Steps
import Storyboard.Proofs.Number.Lawful

/-!
# A first step on a blank timeline

Behind a group, and wherever else the walk goes on with a blank timeline, the new timeline knows
nothing of what was written before. When an animated step of positive length then writes one
property, the timeline becomes an instruction of two keyframes (`Timeline.firstStep`). The first of
them stands at offset zero and is filled by the backfill alone: it shows the value that the
timelines shared before the write, or leaves the property to the computed style if there was none
(`Timeline.keyframe_firstStep`).
-/

set_option autoImplicit false

namespace Storyboard

variable {ν : Type}

/-- Changing the timeline that was added last. -/
theorem Stage.modify_push (stage : Stage ν) (timeline : Timeline ν)
    (change : Timeline ν → Timeline ν) :
    (stage.push timeline).modify stage.size change = stage.push (change timeline) := by
  simp only [modify, push, Stage.mk.injEq, and_true]
  exact modify_concat stage.timelines timeline

variable [Scalar ν]

/-- A style that declares one property fills in that property, and no easing. -/
theorem StyleStep.fill_single (scope : Params ν) {property : String} (value : Value ν)
    (free : property ≠ offsetKey) (unreserved : property ≠ easingKey) :
    ((StyleStep.ofEntries [(property, value)]).fill scope).styles.entries =
      [(property, (value.fill scope).1)] ∧
    ((StyleStep.ofEntries [(property, value)]).fill scope).easing = none := by
  have entries : (StyleStep.ofEntries [(property, value)]).merged.entries = [(property, value)] :=
    rfl
  rw [StyleStep.fill, entries, List.foldl_cons, List.foldl_nil]
  simp only [FilledStyle.take, free, unreserved, if_false]
  exact ⟨rfl, trivial⟩

namespace Timeline

omit [Scalar ν] in
theorem frames_capture (timeline : Timeline ν) (property : String) (known : Option (Value ν)) :
    (timeline.capture property known).frames = timeline.frames := by
  unfold capture
  split <;> rfl

omit [Scalar ν] in
theorem current_capture (timeline : Timeline ν) (property : String) (known : Option (Value ν)) :
    (timeline.capture property known).current = timeline.current := by
  unfold capture
  split <;> rfl

/-- A blank timeline on which one property is written after a time. -/
def firstStep (start time : ν) (property : String) (value : Value ν) (known : Option (Value ν)) :
    Timeline ν :=
  (((blank start ∅).forwardTo (0 + time)).write property value known).carryWritten

/-- What the first step backfills with: the value that was known, or the computed style. -/
theorem backfill_firstStep (start time : ν) (property : String) (value : Value ν)
    (known : Option (Value ν)) :
    (firstStep start time property value known).backfill =
      OrderedMap.ofList [(property, known.getD Value.automatic)] := by
  have tables : ∀ timeline : Timeline ν, timeline.written = ∅ → timeline.inherited = ∅ →
      timeline.backfill = ∅ → (timeline.write property value known).carryWritten.backfill =
        OrderedMap.ofList [(property, known.getD Value.automatic)] := by
    intro timeline written inherited backfill
    show (timeline.capture property known).backfill = _
    unfold capture
    rw [written, inherited, backfill]
    rfl
  unfold firstStep forwardTo seek
  split
  · exact tables _ rfl rfl rfl
  · exact tables _ rfl rfl rfl

/-- The offset and the property in a keyframe that has nothing but the backfill of a first step. -/
theorem emit_firstStep (start time : ν) {property : String} (free : property ≠ offsetKey)
    (value : Value ν) (known : Option (Value ν)) (offset : ν) :
    ((firstStep start time property value known).emit ∅ offset).get? offsetKey =
        some (.number offset) ∧
      ((firstStep start time property value known).emit ∅ offset).get? property =
        some (known.getD Value.automatic) := by
  unfold emit resolve
  rw [backfill_firstStep, OrderedMap.get?_insert, OrderedMap.get?_insert, if_pos rfl,
    if_neg free.symm]
  refine ⟨rfl, ?_⟩
  have filled : (∅ : Styles ν).fillFrom
      (OrderedMap.ofList [(property, known.getD Value.automatic)]) =
        (∅ : Styles ν).insert property (known.getD Value.automatic) := rfl
  rw [filled, OrderedMap.get?_insert, if_pos rfl]

variable [LawfulScalar ν]

/-- The keyframes of a first step: an empty one at the start, and the one that was written. -/
theorem frames_firstStep (start : ν) {time : ν} (positive : 0 < time) (property : String)
    (value : Value ν) (known : Option (Value ν)) :
    ∃ styles, (firstStep start time property value known).frames = [⟨0, ∅⟩, ⟨time, styles⟩] := by
  have apart : ((0 : ν) == time) = false := Scalar.beq_eq_false_of_lt positive
  have reached : Scalar.larger (0 + time) 0 = time := by
    rw [LawfulScalar.zero_add_of_pos positive, Scalar.larger, if_pos positive]
  have moved : (blank start ∅).forwardTo (0 + time) =
      { blank start ∅ with
        cursor := time, previous := some 0, frames := [⟨0, ∅⟩, ⟨time, ∅⟩], current := 1 } := by
    simp only [forwardTo, seek, reached, blank, List.findIdx?_cons, List.findIdx?_nil, apart,
      Bool.false_eq_true, if_false, Option.map_none]
    rfl
  unfold firstStep
  rw [moved]
  simp only [carryWritten, write, editCurrent, editFrame, adopt, frames_capture, current_capture]
  exact ⟨_, rfl⟩

/-- **The first keyframe of a first step** stands at offset zero and shows the value that was known
before. -/
theorem keyframe_firstStep (start : ν) {time : ν} (positive : 0 < time) {property : String}
    (free : property ≠ offsetKey) (value : Value ν) (known : Option (Value ν)) :
    (firstStep start time property value known).hasStyling = true ∧
    ∃ keyframe, (firstStep start time property value known).instruction.keyframes.head? =
        some keyframe ∧
      keyframe.get? offsetKey = some (.number 0) ∧
        keyframe.get? property = some (known.getD Value.automatic) := by
  obtain ⟨styles, frames⟩ := frames_firstStep start positive property value known
  have above : ¬time < 0 := Scalar.not_lt_of_lt positive
  have nonzero : (time == 0) = false := Scalar.beq_eq_false_of_gt positive
  have sorted : Keyframe.sortByTime (firstStep start time property value known).frames =
      [⟨0, ∅⟩, ⟨time, styles⟩] := by
    rw [frames]
    simp only [Keyframe.sortByTime, List.foldr_cons, List.foldr_nil, Keyframe.insertByTime,
      above, if_false]
  have length : (firstStep start time property value known).length = time := by
    rw [Timeline.length, sorted]
    exact if_pos positive
  refine ⟨?_, (firstStep start time property value known).emit ∅ 0, ?_,
    emit_firstStep start time free value known 0⟩
  · rw [hasStyling, frames]
    rfl
  · simp only [instruction, length, nonzero, sorted, Bool.false_eq_true, if_false, List.map_cons,
      List.head?_cons, LawfulScalar.zero_div_of_pos positive]

end Timeline

/-! ## The step on a stage -/

/-- Writing a single property on the timeline that was added last. -/
theorem Stage.timelines_write_push {property : String} (free : property ≠ offsetKey)
    {styles : Styles ν} {value : Value ν} (single : styles.entries = [(property, value)])
    (stage : Stage ν) (timeline : Timeline ν) :
    ((stage.push timeline).write stage.size styles none).timelines =
      stage.timelines ++
        [(timeline.write property value (stage.shared.get? property)).carryWritten] := by
  rw [write, single, List.foldl_cons, List.foldl_nil, writeEntry, if_neg free]
  have changed : (((stage.push timeline).modify stage.size fun timeline =>
      timeline.write property value (stage.shared.get? property)).modify stage.size
        Timeline.carryWritten).timelines = (stage.push
          (timeline.write property value (stage.shared.get? property)).carryWritten).timelines := by
    rw [modify_push, modify_push]
  exact changed

/-- A positive number of milliseconds is a duration without a delay or an easing. -/
theorem Timing.resolve_millis (scope : Params ν) {time : ν} (nonnegative : ¬time < 0) :
    ((Timing.millis time).resolve scope).1 = ⟨time, 0, none⟩ := by
  show (Timings.checked (⟨time, 0, none⟩ : Timings ν)).1 = _
  simp only [Timings.checked, if_neg nonnegative, ite_self]

variable [LawfulScalar ν]

/-- An animated step on a timeline that was just opened makes it a first step. -/
theorem Traversal.timelines_firstStep {walk : Traversal ν} {base : Stage ν} {start : ν}
    (stage : walk.stage = base.push (Timeline.blank start ∅)) (current : walk.current = base.size)
    (scope : Params ν) {time : ν} (positive : 0 < time) {property : String}
    (free : property ≠ offsetKey) (unreserved : property ≠ easingKey) (value : Value ν) :
    (walk.runAnimate scope (.millis time)
      (some (.style (StyleStep.ofEntries [(property, value)])))).stage.timelines =
        base.timelines ++ [Timeline.firstStep start time property (value.fill scope).1
          (base.shared.get? property)] := by
  have nonnegative : ¬time < 0 := Scalar.not_lt_of_lt positive
  obtain ⟨single, plain⟩ := StyleStep.fill_single scope value free unreserved
  rw [runAnimate_style, awaitPayload, Timing.resolve_millis scope nonnegative, wait,
    if_neg (LawfulScalar.lt_irrefl 0)]
  have passed : ((walk.report ((Timing.millis time).resolve scope).2).pass time).stage =
      base.push ((Timeline.blank start ∅).forwardTo (0 + time)) := by
    show walk.stage.modify walk.current _ = _
    rw [stage, current, Stage.modify_push]
    rfl
  show (Stage.write ((walk.report ((Timing.millis time).resolve scope).2).pass time).stage
    walk.current _ (none.or _)).timelines = _
  rw [passed, current, plain]
  exact Stage.timelines_write_push free single base _

end Storyboard
