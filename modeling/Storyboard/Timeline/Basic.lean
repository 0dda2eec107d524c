import Storyboard.Instruction

/-!
# Timelines

A timeline covers one continuous span. It starts at an absolute time and has a local cursor; its
keyframes are keyed by local time, and the keyframe under the cursor receives what is written.

Beside its keyframes a timeline keeps four tables. `written` holds the styles it has written,
`summary` the same with the absolute time of the last write, and `inherited` the styles it knew
when it was forked. `backfill` captures, on the first write of a property, the value that the
property had before: what was inherited, else what the animation shares, else the computed style.
An emitted keyframe shows its own entries and, for every other property, the backfill, so the
keyframes before the first write still show the property.

`Timeline.instruction` freezes a timeline: keyframes by time, each with its offset in the span; a
span without length shows the final styles at both ends.
-/

set_option autoImplicit false

namespace Storyboard

variable {ν : Type}

/-- The styles at a local time. -/
structure Keyframe (ν : Type) where
  time : ν
  styles : Styles ν
deriving DecidableEq

/-- A value and the absolute time at which it was written. -/
structure Stamped (ν : Type) where
  time : ν
  value : Value ν
deriving DecidableEq

/-- One continuous span of an animation under construction. -/
structure Timeline (ν : Type) where
  /-- The absolute time at which the span starts. -/
  start : ν
  /-- The local time of the cursor. -/
  cursor : ν
  /-- The easing of the whole span. -/
  easing : Option String
  /-- The keyframes in the order in which they were opened. -/
  frames : List (Keyframe ν)
  /-- The index of the keyframe under the cursor. -/
  current : Nat
  /-- The index of the keyframe that was under the cursor before it last moved. -/
  previous : Option Nat
  written : Styles ν
  inherited : Styles ν
  backfill : Styles ν
  summary : OrderedMap (Stamped ν)
  /-- The destination styles of the whole animation have been written here. -/
  landed : Bool
deriving DecidableEq

namespace Keyframe

variable [Scalar ν]

/-- Puts a keyframe in front of the first one that is not earlier. -/
def insertByTime (frame : Keyframe ν) : List (Keyframe ν) → List (Keyframe ν)
  | [] => [frame]
  | next :: rest =>
    if next.time < frame.time then next :: insertByTime frame rest else frame :: next :: rest

/-- Keyframes by time; those of equal times keep their order. -/
def sortByTime (frames : List (Keyframe ν)) : List (Keyframe ν) :=
  frames.foldr insertByTime []

end Keyframe

namespace Timeline

/-- The properties and values that the timeline knows: its inheritance under its own writes. -/
def effective (timeline : Timeline ν) : Styles ν :=
  timeline.inherited.overlay timeline.written

/-- The keyframe under the cursor has these entries of its own. -/
def currentStyles (timeline : Timeline ν) : Styles ν :=
  match timeline.frames[timeline.current]? with
  | some frame => frame.styles
  | none => ∅

/-- Changes the entries of one keyframe. -/
def editFrame (timeline : Timeline ν) (index : Nat) (edit : Styles ν → Styles ν) :
    Timeline ν :=
  { timeline with
    frames := timeline.frames.modify index fun frame => { frame with styles := edit frame.styles } }

/-- Changes the entries of the keyframe under the cursor. -/
def editCurrent (timeline : Timeline ν) (edit : Styles ν → Styles ν) : Timeline ν :=
  timeline.editFrame timeline.current edit

/-- Carries everything written into the keyframe under the cursor. -/
def snapshot (timeline : Timeline ν) : Timeline ν :=
  timeline.editCurrent fun styles => styles.overlay timeline.written

/-- Puts an easing on the keyframe that opened the segment before the cursor. -/
def easeSegment (timeline : Timeline ν) (easing : String) : Timeline ν :=
  timeline.editFrame (timeline.previous.getD timeline.current) fun styles =>
    styles.insert easingKey (.text easing)

/-- A keyframe as it is emitted: its own entries, then the backfill of the others. -/
def resolve (timeline : Timeline ν) (frame : Styles ν) : Styles ν :=
  frame.fillFrom timeline.backfill

/-- Captures the value that a property had before its first write. -/
def capture (timeline : Timeline ν) (property : String) (known : Option (Value ν)) :
    Timeline ν :=
  if timeline.written.contains property || timeline.backfill.contains property then timeline
  else
    let before := ((timeline.inherited.get? property).or known).getD Value.automatic
    { timeline with backfill := timeline.backfill.insert property before }

/-- Carries into the keyframe under the cursor what was written elsewhere and is missing there. -/
def carryWritten (timeline : Timeline ν) : Timeline ν :=
  timeline.editCurrent fun styles => styles.fillFrom timeline.written

/-- Marks a property as computed in the keyframe under the cursor; `known` is its shared value. -/
def blankOut (timeline : Timeline ν) (property : String) (known : Value ν) : Timeline ν :=
  (timeline.capture property (some known)).editCurrent fun styles =>
    styles.insert property Value.automatic

/-- Records a value of another timeline as this timeline's own. -/
def adopt (timeline : Timeline ν) (property : String) (stamped : Stamped ν) : Timeline ν :=
  { timeline with
    written := timeline.written.insert property stamped.value
    summary := timeline.summary.insert property stamped }

variable [Scalar ν]

/-- A timeline with an empty keyframe at its start. -/
def blank (start : ν) (inherited : Styles ν) : Timeline ν where
  start := start
  cursor := 0
  easing := none
  frames := [⟨0, ∅⟩]
  current := 0
  previous := none
  written := ∅
  inherited := inherited
  backfill := ∅
  summary := ∅
  landed := false

/-- The absolute time of the cursor. -/
def now (timeline : Timeline ν) : ν :=
  timeline.start + timeline.cursor

/-- The span is worth emitting: it has a segment, or it holds the destination styles of an
animation without length. -/
def hasStyling (timeline : Timeline ν) : Bool :=
  1 < timeline.frames.length || (timeline.landed && timeline.cursor == 0)

/-- Moves the cursor to a local time, opening a keyframe there unless there is one. -/
def seek (timeline : Timeline ν) (time : ν) : Timeline ν :=
  let moved := { timeline with cursor := time, previous := some timeline.current }
  match timeline.frames.findIdx? fun frame => frame.time == time with
  | some index => { moved with current := index }
  | none =>
    { moved with
      frames := timeline.frames ++ [⟨time, ∅⟩]
      current := timeline.frames.length }

/-- Moves the cursor on by the length of a frame. -/
def forwardFrame (timeline : Timeline ν) (length : ν) : Timeline ν :=
  timeline.seek (timeline.cursor + length)

/-- Moves the cursor to a local time; a time before the start counts as the start. -/
def forwardTo (timeline : Timeline ν) (time : ν) : Timeline ν :=
  timeline.seek (Scalar.larger time 0)

/-- Writes one property at the cursor; `known` is its shared value before the write. -/
def write (timeline : Timeline ν) (property : String) (value : Value ν)
    (known : Option (Value ν)) : Timeline ν :=
  let captured := timeline.capture property known
  let recorded := captured.adopt property ⟨timeline.now, value⟩
  recorded.editCurrent fun styles => styles.insert property value

/-- The length of the span: the time of its last keyframe. -/
def length (timeline : Timeline ν) : ν :=
  match (Keyframe.sortByTime timeline.frames).getLast? with
  | some frame => Scalar.larger frame.time 0
  | none => 0

/-- An emitted keyframe at an offset. -/
def emit (timeline : Timeline ν) (styles : Styles ν) (offset : ν) : Styles ν :=
  (timeline.resolve styles).insert offsetKey (.number offset)

/-- The timeline as an instruction. -/
def instruction (timeline : Timeline ν) : Instruction ν :=
  let length := timeline.length
  let keyframes :=
    if length == 0 then
      [timeline.emit timeline.currentStyles 0, timeline.emit timeline.currentStyles 1]
    else
      (Keyframe.sortByTime timeline.frames).map fun frame =>
        timeline.emit frame.styles (frame.time / length)
  ⟨.timelineAnimation, keyframes, length, timeline.start, timeline.easing⟩

end Timeline

end Storyboard
