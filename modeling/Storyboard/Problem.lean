import Storyboard.Number.Scalar
import Storyboard.Tree.Kind

/-!
# Problems and failures

What can be wrong with an animation, as causes. Problems never stop a walk over a tree: they are
collected in the order in which they are met, and only the outermost operations refuse an
animation that has some. `Problem.message` is the wording of each cause. What is answered then
instead of a result is a failure: it carries the messages of all problems that were collected, and
says which operation refused them.

One cause is that two time windows collide. A window is the span of the clock in which a property
is animated. A window with equal ends is a point. Two windows overlap when they share more than an
end: a point overlaps a span strictly inside of it, and two points never overlap.
-/

set_option autoImplicit false

namespace Storyboard

/-! ## Time windows -/

/-- The span of the clock from `start` to `stop`. -/
structure Window (ν : Type) where
  start : ν
  stop : ν
deriving DecidableEq

namespace Window

variable {ν : Type} [Scalar ν]

/-- The window has no length. -/
def isPoint (window : Window ν) : Bool :=
  window.start == window.stop

/-- The two windows share more than an end. -/
def overlaps (first second : Window ν) : Bool :=
  match first.isPoint, second.isPoint with
  | true, true => false
  | true, false => second.start < first.start && first.start < second.stop
  | false, true => first.start < second.start && second.start < first.stop
  | false, false => first.start < second.stop && second.start < first.stop

/-- The two windows have the same ends. -/
def coincides (first second : Window ν) : Bool :=
  first.start == second.start && first.stop == second.stop

/-- The shortest window that holds both. -/
def join (first second : Window ν) : Window ν :=
  ⟨Scalar.smaller first.start second.start, Scalar.larger first.stop second.stop⟩

end Window

/-! ## Causes -/

/-- A cause for refusing an animation. -/
inductive Problem (ν : Type) where
  /-- A timing text is not a timing expression. -/
  | invalidTiming (source : String)
  | negativeDuration
  | negativeDelay
  /-- A placeholder names a parameter that no scope binds. -/
  | missingParam (name : String)
  /-- A keyframe list stands outside of an animated step. -/
  | strayKeyframes
  /-- A construct needs several elements to run on. -/
  | queryNeedsElements (selector : String)
  | staggerNeedsElements
  | animateChildNeedsElements
  /-- Some steps of a keyframe list declare an offset and some do not. -/
  | offsetsIncomplete
  | offsetOutOfRange
  | offsetsUnordered
  /-- A property is written in two different windows that overlap. -/
  | collision (property : String) (existing incoming : Window ν)
  /-- A transition alias is unknown. -/
  | unknownAlias (shorthand : String)
  /-- A part of a transition expression does not follow the grammar. -/
  | invalidTransition (source : String)
  /-- A definition of a trigger is neither a state nor a transition. -/
  | misplacedDefinition (kind : NodeKind)
deriving DecidableEq

namespace Problem

variable {ν : Type} [Scalar ν]

/-- The wording for a construct that needs several elements. -/
def needsElements (construct : String) : String :=
  construct ++ " needs an element-aware animation driver and cannot run on a single element"

/-- The two ends of a window as they stand in a message. -/
def between (window : Window ν) : String :=
  "between the times of \"" ++ Scalar.text window.start ++ "ms\" and \"" ++
    Scalar.text window.stop ++ "ms\""

/-- The wording of a problem. -/
def message : Problem ν → String
  | invalidTiming source => "The provided timing value \"" ++ source ++ "\" is invalid."
  | negativeDuration => "Duration values below 0 are not allowed for this animation step."
  | negativeDelay => "Delay values below 0 are not allowed for this animation step."
  | missingParam name => "Please provide a value for the animation param " ++ name
  | strayKeyframes => "keyframes() must be placed inside of a call to animate()"
  | queryNeedsElements selector => needsElements ("query(\"" ++ selector ++ "\")")
  | staggerNeedsElements => needsElements "stagger()"
  | animateChildNeedsElements => needsElements "animateChild()"
  | offsetsIncomplete =>
    "Not all style() steps within the declared keyframes() contain offsets"
  | offsetOutOfRange => "Please ensure that all keyframe offsets are between 0 and 1"
  | offsetsUnordered => "Please ensure that all keyframe offsets are in order"
  | collision property existing incoming =>
    "The CSS property \"" ++ property ++ "\" that exists " ++ between existing ++
      " is also being animated in a parallel animation " ++ between incoming
  | unknownAlias shorthand => "The transition alias value \"" ++ shorthand ++ "\" is not supported"
  | invalidTransition source =>
    "The provided transition expression \"" ++ source ++ "\" is not supported"
  | misplacedDefinition kind =>
    "only state() and transition() definitions can sit inside of a trigger(), got " ++ kind.name

end Problem

/-! ## Failures -/

/-- Why an animation or a trigger was refused. -/
inductive Failure where
  /-- An animation has problems. -/
  | invalidAnimation (messages : List String)
  /-- The definitions of a trigger have problems, or one of its transitions does not compile. -/
  | invalidTrigger (trigger : String) (messages : List String)
  /-- A trigger was asked of a node of another kind. -/
  | notTrigger (kind : String)
deriving DecidableEq, Repr

namespace Failure

/-- A heading and the messages, one to a line. -/
def listing (heading : String) (messages : List String) : String :=
  heading ++ ":\n" ++ String.intercalate "\n" messages

/-- The full text of a failure. -/
def text : Failure → String
  | invalidAnimation messages => listing "animation validation failed" messages
  | invalidTrigger trigger messages =>
    listing ("animation parsing for the " ++ trigger ++ " trigger has failed") messages
  | notTrigger kind => "expected a trigger node, got " ++ kind

/-- The single messages of a failure. -/
def messages : Failure → List String
  | invalidAnimation messages => messages
  | invalidTrigger _ messages => messages
  | notTrigger kind => [text (notTrigger kind)]

/-- The category under which a failure is logged. -/
def category : Failure → String
  | invalidAnimation _ => "validation"
  | invalidTrigger .. => "trigger"
  | notTrigger _ => "trigger"

end Failure

end Storyboard
