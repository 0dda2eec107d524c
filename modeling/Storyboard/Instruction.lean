import Storyboard.Style.Value

/-!
# Instructions

What a player receives. A timeline instruction is one keyframe animation of the element: its
keyframes with their offsets, its duration, and its delay from the start of the whole animation.
A transition instruction is the answer of a trigger to a change of state: the two states with
their styles, and the timelines that lead from the one to the other.
-/

set_option autoImplicit false

namespace Storyboard

variable {ν : Type}

/-- The two kinds of instructions, as documents name them. -/
inductive InstructionKind where
  | timelineAnimation
  | transitionAnimation
deriving DecidableEq, Repr

namespace InstructionKind

/-- The name of a kind in documents. -/
def name : InstructionKind → String
  | timelineAnimation => "TimelineAnimation"
  | transitionAnimation => "TransitionAnimation"

/-- The kind with a name. -/
def ofName? (name : String) : Option InstructionKind :=
  [timelineAnimation, transitionAnimation].find? fun kind => kind.name == name

end InstructionKind

/-- One keyframe animation, with all times resolved to milliseconds. -/
structure Instruction (ν : Type) where
  kind : InstructionKind
  keyframes : List (Styles ν)
  duration : ν
  delay : ν
  easing : Option String
deriving DecidableEq

namespace Instruction

/-- The instruction has nothing to play. -/
def isNoop (instruction : Instruction ν) : Bool :=
  instruction.keyframes.isEmpty

variable [Scalar ν]

/-- The instruction that stands for an animation in which nothing happens. -/
def noop : Instruction ν :=
  ⟨.timelineAnimation, [], 0, 0, none⟩

/-- When the instruction ends, from the start of the whole animation. -/
def endTime (instruction : Instruction ν) : ν :=
  instruction.delay + instruction.duration

/-- The offsets of the keyframes; a keyframe without a numeric offset counts as zero. -/
def offsets (instruction : Instruction ν) : List ν :=
  instruction.keyframes.map fun keyframe => keyframe.offset?.getD 0

end Instruction

/-- The answer of a trigger to a change of state. -/
structure TransitionInstruction (ν : Type) where
  kind : InstructionKind
  triggerName : String
  isRemoval : Bool
  fromState : String
  fromStyles : Styles ν
  toState : String
  toStyles : Styles ν
  timelines : List (Instruction ν)
deriving DecidableEq

/-- When the last timeline ends; never below zero. -/
def TransitionInstruction.totalTime [Scalar ν] (instruction : TransitionInstruction ν) : ν :=
  instruction.timelines.foldl (fun latest timeline => Scalar.larger latest timeline.endTime) 0

end Storyboard
