import Storyboard.Timeline.Basic

/-!
# The stage of an animation

All timelines of one animation, numbered in the order of their creation, and the styles that they
share: for each property the value written last by any of them. Branches that run side by side
are forks of one timeline, but they backfill through the shared styles, so a later branch starts
from what an earlier one wrote.

The operations are meant for numbers that the stage has given out; a new timeline's number is the
size of the stage before.
-/

set_option autoImplicit false

namespace Storyboard

variable {ν : Type}

/-- The timelines of an animation and the styles that they share. -/
structure Stage (ν : Type) where
  timelines : List (Timeline ν)
  shared : Styles ν
deriving DecidableEq

namespace Stage

/-- The empty stage. -/
def empty : Stage ν :=
  ⟨[], ∅⟩

/-- The number of timelines. -/
def size (stage : Stage ν) : Nat :=
  stage.timelines.length

/-- The timeline with a number. -/
def get? (stage : Stage ν) (id : Nat) : Option (Timeline ν) :=
  stage.timelines[id]?

/-- Changes the timeline with a number. -/
def modify (stage : Stage ν) (id : Nat) (change : Timeline ν → Timeline ν) : Stage ν :=
  { stage with timelines := stage.timelines.modify id change }

/-- Adds a timeline behind the others. -/
def push (stage : Stage ν) (timeline : Timeline ν) : Stage ν :=
  { stage with timelines := stage.timelines ++ [timeline] }

/-- Puts an easing on the segment before the cursor, if there is one to put. -/
def easeSegment (stage : Stage ν) (id : Nat) (easing : Option String) : Stage ν :=
  match easing with
  | some easing => stage.modify id fun timeline => timeline.easeSegment easing
  | none => stage

/-- Ends a segment without writing: every shared property is marked as computed at the cursor. -/
def writeEmptyStep (stage : Stage ν) (id : Nat) (easing : Option String) : Stage ν :=
  (stage.easeSegment id easing).modify id fun timeline =>
    stage.shared.entries.foldl (fun marked entry => marked.blankOut entry.1 entry.2) timeline

variable [Scalar ν]

/-- The timeline with a number, or a blank one. -/
def timeline (stage : Stage ν) (id : Nat) : Timeline ν :=
  (stage.get? id).getD (Timeline.blank 0 ∅)

/-- The absolute time of a timeline's cursor. -/
def now (stage : Stage ν) (id : Nat) : ν :=
  (stage.timeline id).now

/-- Adds a blank timeline. -/
def create (stage : Stage ν) (start : ν) : Stage ν :=
  stage.push (Timeline.blank start ∅)

/-- Adds a fork of a timeline. It starts at the given time, else at the cursor of its parent, and
on request inherits what the parent knows. -/
def fork (stage : Stage ν) (parent : Nat) (start : Option ν) (inherits : Bool) : Stage ν :=
  let origin := stage.timeline parent
  stage.push (Timeline.blank (start.getD origin.now) (if inherits then origin.effective else ∅))

/-- Writes one property on a timeline and into the shared styles; the reserved offset is not
written. -/
def writeEntry (stage : Stage ν) (id : Nat) (entry : String × Value ν) : Stage ν :=
  if entry.1 = offsetKey then stage
  else
    { stage.modify id fun timeline =>
        timeline.write entry.1 entry.2 (stage.shared.get? entry.1) with
      shared := stage.shared.insert entry.1 entry.2 }

/-- Writes styles at the cursor of a timeline. The easing goes to the segment before the cursor,
and what the timeline wrote earlier is carried along. -/
def write (stage : Stage ν) (id : Nat) (styles : Styles ν) (easing : Option String) :
    Stage ν :=
  (styles.entries.foldl (fun written entry => written.writeEntry id entry)
    (stage.easeSegment id easing)).modify id Timeline.carryWritten

/-- Writes the destination styles of the animation. -/
def land (stage : Stage ν) (id : Nat) (styles : Styles ν) : Stage ν :=
  (stage.write id styles none).modify id fun timeline => { timeline with landed := true }

/-- The entries of one summary that were written strictly later than those of another. -/
def laterEntries (existing incoming : OrderedMap (Stamped ν)) : List (String × Stamped ν) :=
  incoming.entries.filter fun entry =>
    match existing.get? entry.1 with
    | some stamped => stamped.time < entry.2.time
    | none => true

/-- Takes a value over into a timeline and into the shared styles. -/
def adoptEntry (stage : Stage ν) (id : Nat) (entry : String × Stamped ν) : Stage ν :=
  { stage.modify id fun timeline => timeline.adopt entry.1 entry.2 with
    shared := stage.shared.insert entry.1 entry.2.value }

/-- Folds the summary of one timeline into another: the later write wins, and on equal times the
one that is there already. -/
def absorb (stage : Stage ν) (target source : Nat) : Stage ν :=
  (laterEntries (stage.timeline target).summary (stage.timeline source).summary).foldl
    (fun merged entry => merged.adoptEntry target entry) stage

end Stage

end Storyboard
