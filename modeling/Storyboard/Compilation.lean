import Storyboard.Timeline.Stage
import Storyboard.Tree.Basic
import Storyboard.Validation

/-!
# Compilation

A walk over a tree that writes timelines. A sequence shares one timeline among its steps. A group
forks one timeline per branch from its entry, folds the branches' writes back in order, and goes
on with a blank timeline at the furthest end of a branch. An animated step moves the cursor by its
delay, where it takes a snapshot, and then by its duration; a keyframe list runs on a fork of its
own, and the walk goes on with a blank timeline behind it. A sequence in which a fork was taken
ends on a blank timeline too.

Writes at one cursor position share a keyframe. Where a bare style follows an animated step, or a
sequence follows a bare style, the cursor first moves on by the length of a frame, so that the two
do not collapse.

`Tree.compile` starts from given styles at time zero, walks the tree, lands the destination styles
on the timeline that the walk ends on, and emits every timeline that holds an animation; if none
does, it emits the instruction in which nothing happens. Problems are collected and never stop the
walk.
-/

set_option autoImplicit false

namespace Storyboard

variable {ν : Type}

/-- The settings of a compilation. -/
structure Settings (ν : Type) where
  /-- The length of one frame in milliseconds. -/
  frameLength : ν
deriving DecidableEq

/-- A frame takes one millisecond unless it is set otherwise. -/
def Settings.standard [Scalar ν] : Settings ν :=
  ⟨1⟩

/-! ## Forks -/

mutual

/-- Visiting the tree forks the timeline on which the visit began. -/
def Tree.forks : Tree ν → Bool
  | .sequence steps => Tree.anyForks steps
  | .group branches => !branches.isEmpty
  | .animate _ (some (.keyframes _)) => true
  | .reference animation _ => animation.forks
  | .animateRef animation _ _ => animation.forks
  | _ => false

/-- Visiting some of the trees forks. -/
def Tree.anyForks : List (Tree ν) → Bool
  | [] => false
  | tree :: rest => tree.forks || Tree.anyForks rest

end

/-! ## The state of the walk -/

/-- The timelines, the one that the walk is on, the kind of the node visited before on this
branch, and the problems found so far. -/
structure Traversal (ν : Type) where
  stage : Stage ν
  current : Nat
  previous : Option NodeKind
  problems : List (Problem ν)

namespace Traversal

/-- Adds problems behind those found so far. -/
def report (walk : Traversal ν) (problems : List (Problem ν)) : Traversal ν :=
  { walk with problems := walk.problems ++ problems }

/-- Changes the timeline that the walk is on. -/
def modifyCurrent (walk : Traversal ν) (change : Timeline ν → Timeline ν) : Traversal ν :=
  { walk with stage := walk.stage.modify walk.current change }

/-- Remembers the kind of the node that was visited last. -/
def after (walk : Traversal ν) (kind : NodeKind) : Traversal ν :=
  { walk with previous := some kind }

variable [Scalar ν]

/-- The absolute time of the walk. -/
def now (walk : Traversal ν) : ν :=
  walk.stage.now walk.current

/-- Goes on with a blank timeline at a time, or where the cursor stands. -/
def continueAt (walk : Traversal ν) (time : Option ν) : Traversal ν :=
  { walk with stage := walk.stage.fork walk.current time false, current := walk.stage.size }

/-- Goes on with a fork that inherits what the timeline knows. -/
def branch (walk : Traversal ν) : Traversal ν :=
  { walk with stage := walk.stage.fork walk.current none true, current := walk.stage.size }

/-- Moves the cursor of the current timeline on by an amount of local time. -/
def pass (walk : Traversal ν) (time : ν) : Traversal ν :=
  walk.modifyCurrent fun timeline => timeline.forwardTo (timeline.cursor + time)

end Traversal

/-! ## Styles -/

variable [Scalar ν]

/-- A style ready to be written: its properties with placeholders filled, the easing that it
declares, and the problems met. -/
structure FilledStyle (ν : Type) where
  styles : Styles ν
  easing : Option String
  problems : List (Problem ν)

/-- Takes one entry into a filled style; the reserved names are no properties. -/
def FilledStyle.take (scope : Params ν) (filled : FilledStyle ν)
    (entry : String × Value ν) : FilledStyle ν :=
  if entry.1 = offsetKey then filled
  else
    let (value, problems) := entry.2.fill scope
    let reported := { filled with problems := filled.problems ++ problems }
    if entry.1 = easingKey then { reported with easing := some value.display }
    else { reported with styles := reported.styles.insert entry.1 value }

/-- Fills the merged maps of a style in a scope. -/
def StyleStep.fill (scope : Params ν) (step : StyleStep ν) : FilledStyle ν :=
  step.merged.entries.foldl (FilledStyle.take scope) ⟨∅, none, []⟩

namespace Traversal

/-- Writes a style at the cursor. The easing of the step that it belongs to, if there is one,
comes before an easing that the style declares. -/
def writeStyle (scope : Params ν) (step : StyleStep ν) (stepEasing : Option String)
    (walk : Traversal ν) : Traversal ν :=
  let filled := step.fill scope
  { walk.report filled.problems with
    stage := walk.stage.write walk.current filled.styles (stepEasing.or filled.easing) }

/-- Writes a bare style, one frame on if an animated step came before. -/
def writeBareStyle (settings : Settings ν) (scope : Params ν) (step : StyleStep ν)
    (walk : Traversal ν) : Traversal ν :=
  let moved :=
    if walk.previous = some .animate then
      walk.modifyCurrent fun timeline => timeline.forwardFrame settings.frameLength
    else walk
  moved.writeStyle scope step none

/-- Writes the steps of a keyframe list at their offsets. -/
def writeKeyframes (scope : Params ν) (duration : ν) :
    List (StyleStep ν × ν) → Traversal ν → Traversal ν
  | [], walk => walk
  | (step, offset) :: rest, walk =>
    let moved := walk.modifyCurrent fun timeline => timeline.forwardTo (offset * duration)
    writeKeyframes scope duration rest (moved.writeStyle scope step none)

/-- Runs a keyframe list on a fork of its own and goes on behind it. -/
def runKeyframes (scope : Params ν) (steps : List (StyleStep ν)) (timings : Timings ν)
    (walk : Traversal ν) : Traversal ν :=
  let forked := walk.branch.modifyCurrent fun timeline => { timeline with easing := timings.easing }
  let ran := writeKeyframes scope timings.duration (steps.zip (keyframeOffsets steps)) forked
  let absorbed := ran.stage.absorb walk.current ran.current
  { ran with stage := absorbed, current := walk.current }.continueAt
    (some (walk.now + timings.duration))

/-- Ends an animated step without a payload. -/
def runEmpty (timings : Timings ν) (walk : Traversal ν) : Traversal ν :=
  let moved := walk.pass timings.duration
  { moved with stage := moved.stage.writeEmptyStep moved.current timings.easing }

/-- Runs an animated step. -/
def runAnimate (scope : Params ν) (timing : Timing ν) (payload : Option (Payload ν))
    (walk : Traversal ν) : Traversal ν :=
  let (timings, problems) := timing.resolve scope
  let reported := walk.report problems
  let delayed :=
    if 0 < timings.delay then
      (reported.pass timings.delay).modifyCurrent Timeline.snapshot
    else reported
  match payload with
  | some (.keyframes steps) => delayed.runKeyframes scope steps timings
  | some (.style step) => (delayed.pass timings.duration).writeStyle scope step timings.easing
  | none => delayed.runEmpty timings

/-- Enters a sequence: behind a bare style the cursor moves on by one frame. -/
def enterSequence (settings : Settings ν) (walk : Traversal ν) : Traversal ν :=
  if walk.previous = some .style then
    { walk.modifyCurrent fun timeline =>
        (timeline.forwardFrame settings.frameLength).snapshot with
      previous := none }
  else walk

/-- Leaves a group: folds the branches' writes back in order and goes on at the furthest end. -/
def leaveGroup (entry : Traversal ν) (branches : List Nat) (furthest : ν)
    (walk : Traversal ν) : Traversal ν :=
  let absorbed :=
    branches.foldl (fun stage source => stage.absorb entry.current source) walk.stage
  { walk with stage := absorbed, current := entry.current }.continueAt (some furthest)

end Traversal

/-! ## The walk -/

mutual

/-- Visits a tree in a scope. -/
def Traversal.visit (settings : Settings ν) (scope : Params ν) :
    Tree ν → Traversal ν → Traversal ν
  | .sequence steps, walk =>
    let visited := Traversal.visitSteps settings scope steps (walk.enterSequence settings)
    (if Tree.anyForks steps then visited.continueAt none else visited).after .sequence
  | .group branches, walk =>
    (Traversal.visitBranches settings scope walk branches [] walk.now walk).after .group
  | .animate timing payload, walk => (walk.runAnimate scope timing payload).after .animate
  | .style step, walk => (walk.writeBareStyle settings scope step).after .style
  | .reference animation defaults, walk =>
    (Traversal.visit settings (referenceScope defaults scope) animation walk).after .reference
  | .animateRef animation defaults overrides, walk =>
    (Traversal.visit settings (invocationScope defaults scope overrides) animation walk).after
      .animateRef
  | tree, walk => walk.after tree.kind

/-- Visits steps one after the other. -/
def Traversal.visitSteps (settings : Settings ν) (scope : Params ν) :
    List (Tree ν) → Traversal ν → Traversal ν
  | [], walk => walk
  | step :: rest, walk =>
    Traversal.visitSteps settings scope rest (Traversal.visit settings scope step walk)

/-- Visits branches side by side, each on a fork of the timeline on which the group was entered.
The timelines that the branches end on and the furthest end are passed along. -/
def Traversal.visitBranches (settings : Settings ν) (scope : Params ν) (entry : Traversal ν) :
    List (Tree ν) → List Nat → ν → Traversal ν → Traversal ν
  | [], ends, furthest, walk => Traversal.leaveGroup entry ends furthest walk
  | branch :: rest, ends, furthest, walk =>
    let forked := { walk with current := entry.current, previous := entry.previous }.branch
    let visited := Traversal.visit settings scope branch forked
    Traversal.visitBranches settings scope entry rest (ends ++ [visited.current])
      (Scalar.larger furthest visited.now) visited

end

/-! ## Compiling -/

/-- The walk before anything has been visited: one timeline that holds the starting styles. -/
def Traversal.start (starting : Styles ν) : Traversal ν :=
  ⟨(Stage.empty.create 0).write 0 starting none, 0, none, []⟩

/-- The destination styles, completed by the properties that the timeline has written and its last
keyframe lacks; those are left to the computed style. -/
def Timeline.completeDestination (timeline : Timeline ν) (destination : Styles ν) :
    Styles ν :=
  let missing := timeline.written.keys.filter fun property =>
    !timeline.currentStyles.contains property && !destination.contains property
  missing.foldl (fun completed property => completed.insert property Value.automatic) destination

/-- Lands the destination styles on the timeline that the walk ended on. -/
def Traversal.land (walk : Traversal ν) (destination : Styles ν) : Stage ν :=
  let completed := (walk.stage.timeline walk.current).completeDestination destination
  if completed.isEmpty then walk.stage else walk.stage.land walk.current completed

/-- The instructions of the timelines that hold an animation, in the order of creation. -/
def Stage.instructions (stage : Stage ν) : List (Instruction ν) :=
  let emitted := (stage.timelines.filter Timeline.hasStyling).map Timeline.instruction
  if emitted.isEmpty then [Instruction.noop] else emitted

/-- The instructions that lead from the starting styles to the destination styles along a tree,
and the problems met on the way. -/
def Tree.compile (tree : Tree ν) (settings : Settings ν) (starting destination : Styles ν)
    (scope : Params ν) : List (Instruction ν) × List (Problem ν) :=
  let walk := Traversal.visit settings scope tree (Traversal.start starting)
  ((walk.land destination).instructions, walk.problems)

end Storyboard
