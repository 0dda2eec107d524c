import Storyboard.Proofs.OrderedMap.Values
import Storyboard.Proofs.Timeline.Skeleton
import Storyboard.Proofs.Timing.Resolution

/-!
# Scaled timelines

Reading every time of a timeline in another unit multiplies its start, its cursor, the times of its
keyframes and the times in its summary by one factor (`Timeline.scale`); its styles stay. Each
operation on timelines and stages, told the scaled times, does to the scaled state what it does to
the state: there is one equation per operation, and those that compare times need the factor to be
positive.

An offset in a span is a quotient of two times, so the instruction of a scaled timeline has the
same keyframes, offsets included (`Timeline.instruction_scale`).
-/

set_option autoImplicit false

namespace Storyboard

/-! ## What has a time -/

/-- The keyframe at the multiple of its time. -/
def Keyframe.scale (factor : Rat) (frame : Keyframe Rat) : Keyframe Rat :=
  { frame with time := factor * frame.time }

/-- The value written at the multiple of its time. -/
def Stamped.scale (factor : Rat) (stamped : Stamped Rat) : Stamped Rat :=
  { stamped with time := factor * stamped.time }

/-- The timeline with every time multiplied. -/
def Timeline.scale (factor : Rat) (timeline : Timeline Rat) : Timeline Rat :=
  { timeline with
    start := factor * timeline.start
    cursor := factor * timeline.cursor
    frames := timeline.frames.map (Keyframe.scale factor)
    summary := timeline.summary.mapValues fun _ => Stamped.scale factor }

/-- The instruction with its duration and its delay multiplied. -/
def Instruction.scale (factor : Rat) (instruction : Instruction Rat) : Instruction Rat :=
  { instruction with
    duration := factor * instruction.duration
    delay := factor * instruction.delay }

/-- The stage with every timeline scaled. -/
def Stage.scale (factor : Rat) (stage : Stage Rat) : Stage Rat :=
  { stage with timelines := stage.timelines.map (Timeline.scale factor) }

variable {factor : Rat}

/-! ## Keyframes by time -/

namespace Keyframe

theorem insertByTime_scale (positive : 0 < factor) (frame : Keyframe Rat) :
    ∀ frames : List (Keyframe Rat),
      insertByTime (frame.scale factor) (frames.map (scale factor)) =
        (insertByTime frame frames).map (scale factor)
  | [] => rfl
  | next :: rest => by
    have earlier : (next.scale factor).time < (frame.scale factor).time ↔ next.time < frame.time :=
      Scalar.below_scale positive next.time frame.time
    simp only [List.map_cons, insertByTime, earlier]
    split
    · rw [insertByTime_scale positive frame rest, List.map_cons]
    · rfl

theorem sortByTime_scale (positive : 0 < factor) : ∀ frames : List (Keyframe Rat),
    sortByTime (frames.map (scale factor)) = (sortByTime frames).map (scale factor)
  | [] => rfl
  | frame :: rest => by
    have sorted := sortByTime_scale positive rest
    exact (congrArg (insertByTime (frame.scale factor)) sorted).trans
      (insertByTime_scale positive frame (sortByTime rest))

end Keyframe

/-! ## Timelines -/

namespace Timeline

variable (factor) (timeline : Timeline Rat)

theorem currentStyles_scale : (timeline.scale factor).currentStyles = timeline.currentStyles := by
  simp only [currentStyles, scale, List.getElem?_map]
  cases timeline.frames[timeline.current]? <;> rfl

theorem editFrame_scale (index : Nat) (edit : Styles Rat → Styles Rat) :
    (timeline.scale factor).editFrame index edit =
      (timeline.editFrame index edit).scale factor := by
  have edited : (timeline.frames.modify index fun frame =>
      { frame with styles := edit frame.styles }).map (Keyframe.scale factor) =
        (timeline.frames.map (Keyframe.scale factor)).modify index fun frame =>
          { frame with styles := edit frame.styles } := by
    refine map_modify (Keyframe.scale factor) ?_ index timeline.frames
    exact fun _ => rfl
  simp only [editFrame, scale, edited]

theorem snapshot_scale : (timeline.scale factor).snapshot = timeline.snapshot.scale factor :=
  timeline.editFrame_scale factor timeline.current fun styles => styles.overlay timeline.written

theorem easeSegment_scale (easing : String) :
    (timeline.scale factor).easeSegment easing = (timeline.easeSegment easing).scale factor :=
  timeline.editFrame_scale factor (timeline.previous.getD timeline.current) _

theorem carryWritten_scale :
    (timeline.scale factor).carryWritten = timeline.carryWritten.scale factor :=
  timeline.editFrame_scale factor timeline.current fun styles => styles.fillFrom timeline.written

theorem capture_scale (property : String) (known : Option (Value Rat)) :
    (timeline.scale factor).capture property known =
      (timeline.capture property known).scale factor := by
  have written : (timeline.scale factor).written = timeline.written := rfl
  have backfill : (timeline.scale factor).backfill = timeline.backfill := rfl
  simp only [capture, written, backfill]
  split <;> rfl

theorem blankOut_scale (property : String) (known : Value Rat) :
    (timeline.scale factor).blankOut property known =
      (timeline.blankOut property known).scale factor := by
  rw [blankOut, capture_scale]
  exact (timeline.capture property (some known)).editFrame_scale factor _ _

theorem adopt_scale (property : String) (stamped : Stamped Rat) :
    (timeline.scale factor).adopt property (stamped.scale factor) =
      (timeline.adopt property stamped).scale factor := by
  simp only [adopt, scale, OrderedMap.insert_mapValues]
  rfl

theorem blank_scale (start : Rat) (inherited : Styles Rat) :
    blank (factor * start) inherited = (blank start inherited).scale factor := by
  simp only [blank, scale, List.map_cons, List.map_nil, Keyframe.scale, mul_zero]
  rfl

theorem now_scale : (timeline.scale factor).now = factor * timeline.now :=
  (mul_add factor timeline.start timeline.cursor).symm

theorem write_scale (property : String) (value : Value Rat) (known : Option (Value Rat)) :
    (timeline.scale factor).write property value known =
      (timeline.write property value known).scale factor := by
  have stamped : (⟨(timeline.scale factor).now, value⟩ : Stamped Rat) =
      Stamped.scale factor ⟨timeline.now, value⟩ := by
    rw [now_scale]
    rfl
  simp only [write, stamped, capture_scale, adopt_scale]
  exact editFrame_scale factor _ _ _

variable {factor} (positive : 0 < factor)

include positive

theorem hasStyling_scale : (timeline.scale factor).hasStyling = timeline.hasStyling := by
  have atStart : ((timeline.scale factor).cursor == 0) = (timeline.cursor == 0) := by
    rw [← Scalar.beq_scale positive timeline.cursor 0, mul_zero]
    rfl
  rw [hasStyling, atStart, scale, List.length_map]
  rfl

theorem seek_scale (time : Rat) :
    (timeline.scale factor).seek (factor * time) = (timeline.seek time).scale factor := by
  have opened : (timeline.frames.map (Keyframe.scale factor)).findIdx?
      (fun frame => frame.time == factor * time) =
        timeline.frames.findIdx? fun frame => frame.time == time := by
    rw [List.findIdx?_map]
    refine congrArg (fun test => timeline.frames.findIdx? test) (funext fun frame => ?_)
    exact Scalar.beq_scale positive frame.time time
  have frames : (timeline.scale factor).frames = timeline.frames.map (Keyframe.scale factor) := rfl
  simp only [seek, frames, opened]
  split
  · rfl
  · simp only [scale, List.map_append, List.length_map]
    rfl

theorem forwardTo_scale (time : Rat) :
    (timeline.scale factor).forwardTo (factor * time) =
      (timeline.forwardTo time).scale factor := by
  have floored : Scalar.larger (factor * time) 0 = factor * Scalar.larger time 0 := by
    rw [← Scalar.larger_scale positive, mul_zero]
  rw [forwardTo, floored, seek_scale timeline positive]
  rfl

theorem forwardFrame_scale (length : Rat) :
    (timeline.scale factor).forwardFrame (factor * length) =
      (timeline.forwardFrame length).scale factor := by
  have reached : (timeline.scale factor).cursor + factor * length =
      factor * (timeline.cursor + length) := (mul_add factor timeline.cursor length).symm
  rw [forwardFrame, reached, seek_scale timeline positive]
  rfl

theorem length_scale : (timeline.scale factor).length = factor * timeline.length := by
  simp only [length, scale, Keyframe.sortByTime_scale positive, List.getLast?_map]
  cases (Keyframe.sortByTime timeline.frames).getLast? with
  | none => exact (mul_zero factor).symm
  | some frame =>
    have floored := Scalar.larger_scale positive frame.time 0
    rw [mul_zero] at floored
    exact floored

/-- **The instruction of a scaled timeline has the same keyframes**, at the same offsets, in a
scaled span. -/
theorem instruction_scale :
    (timeline.scale factor).instruction = timeline.instruction.scale factor := by
  have frames : (timeline.scale factor).frames = timeline.frames.map (Keyframe.scale factor) := rfl
  have still : (factor * timeline.length == 0) = (timeline.length == 0) := by
    rw [← Scalar.beq_scale positive timeline.length 0, mul_zero]
  have offset (time : Rat) : factor * time / (factor * timeline.length) = time / timeline.length :=
    mul_div_mul_left time timeline.length positive.ne'
  have emitted (styles : Styles Rat) (position : Rat) :
      (timeline.scale factor).emit styles position = timeline.emit styles position := rfl
  simp only [instruction, length_scale timeline positive, still, currentStyles_scale, emitted,
    frames, Keyframe.sortByTime_scale positive, List.map_map, Function.comp_def, Keyframe.scale,
    offset]
  rfl

end Timeline

/-! ## Stages -/

namespace Stage

variable (factor) (stage : Stage Rat)

theorem size_scale : (stage.scale factor).size = stage.size :=
  List.length_map _

theorem modify_scale (id : Nat) {change scaled : Timeline Rat → Timeline Rat}
    (commutes : ∀ timeline, scaled (timeline.scale factor) = (change timeline).scale factor) :
    (stage.scale factor).modify id scaled = (stage.modify id change).scale factor := by
  simp only [modify, scale]
  rw [map_modify (Timeline.scale factor) fun timeline => (commutes timeline).symm]

theorem push_scale (timeline : Timeline Rat) :
    (stage.scale factor).push (timeline.scale factor) = (stage.push timeline).scale factor := by
  simp only [push, scale, List.map_append, List.map_cons, List.map_nil]

theorem easeSegment_scale (id : Nat) (easing : Option String) :
    (stage.scale factor).easeSegment id easing = (stage.easeSegment id easing).scale factor := by
  cases easing with
  | none => rfl
  | some easing =>
    exact stage.modify_scale factor id fun timeline => timeline.easeSegment_scale factor easing

theorem writeEmptyStep_scale (id : Nat) (easing : Option String) :
    (stage.scale factor).writeEmptyStep id easing =
      (stage.writeEmptyStep id easing).scale factor := by
  rw [writeEmptyStep, easeSegment_scale]
  refine modify_scale factor _ id fun timeline => ?_
  exact List.foldl_hom (Timeline.scale factor) fun marked entry =>
    marked.blankOut_scale factor entry.1 entry.2

theorem timeline_scale (id : Nat) :
    (stage.scale factor).timeline id = (stage.timeline id).scale factor := by
  simp only [timeline, get?, scale, List.getElem?_map]
  cases stage.timelines[id]? with
  | none =>
    have blank := Timeline.blank_scale factor 0 ∅
    rw [mul_zero] at blank
    exact blank
  | some timeline => rfl

theorem now_scale (id : Nat) : (stage.scale factor).now id = factor * stage.now id := by
  rw [now, timeline_scale, Timeline.now_scale]
  rfl

theorem fork_scale (parent : Nat) (start : Option Rat) (inherits : Bool) :
    (stage.scale factor).fork parent (start.map (factor * ·)) inherits =
      (stage.fork parent start inherits).scale factor := by
  have entered : (start.map (factor * ·)).getD (factor * (stage.timeline parent).now) =
      factor * start.getD (stage.timeline parent).now := by
    cases start <;> rfl
  have known : ((stage.timeline parent).scale factor).effective =
      (stage.timeline parent).effective := rfl
  simp only [fork, timeline_scale, Timeline.now_scale, entered, known, Timeline.blank_scale,
    push_scale]

theorem writeEntry_scale (id : Nat) (entry : String × Value Rat) :
    (stage.scale factor).writeEntry id entry = (stage.writeEntry id entry).scale factor := by
  unfold writeEntry
  split
  · rfl
  · rw [stage.modify_scale factor id fun timeline =>
      timeline.write_scale factor entry.1 entry.2 (stage.shared.get? entry.1)]
    rfl

theorem write_scale (id : Nat) (styles : Styles Rat) (easing : Option String) :
    (stage.scale factor).write id styles easing = (stage.write id styles easing).scale factor := by
  have entries : styles.entries.foldl (fun written entry => written.writeEntry id entry)
      ((stage.easeSegment id easing).scale factor) =
        (styles.entries.foldl (fun written entry => written.writeEntry id entry)
          (stage.easeSegment id easing)).scale factor :=
    List.foldl_hom (scale factor) fun written entry => written.writeEntry_scale factor id entry
  rw [write, easeSegment_scale, entries]
  exact modify_scale factor _ id fun timeline => timeline.carryWritten_scale factor

theorem land_scale (id : Nat) (styles : Styles Rat) :
    (stage.scale factor).land id styles = (stage.land id styles).scale factor := by
  rw [land, write_scale]
  exact modify_scale factor _ id fun _ => rfl

theorem adoptEntry_scale (id : Nat) (entry : String × Stamped Rat) :
    (stage.scale factor).adoptEntry id (entry.1, entry.2.scale factor) =
      (stage.adoptEntry id entry).scale factor := by
  rw [adoptEntry, stage.modify_scale factor id fun timeline =>
    timeline.adopt_scale factor entry.1 entry.2]
  rfl

variable {factor} (positive : 0 < factor)

include positive

omit stage in
theorem laterEntries_scale (existing incoming : OrderedMap (Stamped Rat)) :
    laterEntries (existing.mapValues fun _ => Stamped.scale factor)
        (incoming.mapValues fun _ => Stamped.scale factor) =
      (laterEntries existing incoming).map fun entry => (entry.1, entry.2.scale factor) := by
  simp only [laterEntries, OrderedMap.mapValues, List.filter_map]
  refine congrArg (List.map _) (List.filter_congr fun entry _ => ?_)
  have found := OrderedMap.get?_mapValues (fun _ => Stamped.scale factor) existing entry.1
  simp only [OrderedMap.mapValues] at found
  simp only [Function.comp_apply, found]
  cases existing.get? entry.1 with
  | none => rfl
  | some stamped => exact decide_eq_decide.2 (Scalar.below_scale positive _ _)

theorem absorb_scale (target source : Nat) :
    (stage.scale factor).absorb target source = (stage.absorb target source).scale factor := by
  have summary (id : Nat) : ((stage.scale factor).timeline id).summary =
      (stage.timeline id).summary.mapValues fun _ => Stamped.scale factor := by
    rw [timeline_scale]
    rfl
  rw [absorb, summary, summary, laterEntries_scale positive, List.foldl_map]
  exact List.foldl_hom (scale factor) fun merged entry =>
    merged.adoptEntry_scale factor target entry

end Stage

end Storyboard
