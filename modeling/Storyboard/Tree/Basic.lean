import Storyboard.Style.Value
import Storyboard.Timing
import Storyboard.Tree.Kind

/-!
# Animation trees

An animation is described by a tree. Sequences and groups arrange steps in time, one after the
other or side by side; an animated step moves to its payload in its timing; a bare style writes at
once. States and transitions define a trigger. A reference wraps a reusable animation with
default parameters, and an invocation (`animateRef`) runs one with parameters of its own. Queries,
staggers and child animations need several elements; they can be described and stored, but not
run here. The functions below the type build trees the way a program writes them.

A style step is a list of style maps, merged from left to right, with an optional position on a
keyframe list. Read from a document, a step may declare its position in a field of its own or as
the reserved entry of its maps; the field comes first (`StyleStep.offset?`). Built in a program,
a step lifts the entry into the field (`StyleStep.ofMaps`). The positions of a keyframe list are
the declared ones, clamped between zero and one, when every step declares one; otherwise the steps
are spaced evenly (`keyframeOffsets`).
-/

set_option autoImplicit false

namespace Storyboard

/-! ## Style steps and keyframe offsets -/

section

variable {ν : Type}

/-- A style declaration, or a step of a keyframe list. -/
structure StyleStep (ν : Type) where
  maps : List (Styles ν)
  position : Option ν
deriving DecidableEq

namespace StyleStep

/-- The declared maps as one. -/
def merged (step : StyleStep ν) : Styles ν :=
  OrderedMap.merge step.maps

variable [Scalar ν]

/-- The declared position on a keyframe list. -/
def offset? (step : StyleStep ν) : Option ν :=
  step.position.or step.merged.offset?

/-- The step of a list of maps; the last of them with a numeric `offset` entry sets the
position. -/
def ofMaps (maps : List (Styles ν)) : StyleStep ν :=
  ⟨maps, maps.reverse.findSome? Styles.offset?⟩

/-- The step of one list of entries. -/
def ofEntries (entries : List (String × Value ν)) : StyleStep ν :=
  ofMaps [OrderedMap.ofList entries]

end StyleStep

variable [Scalar ν]

/-- The position of a step in an even spacing: the last of several stands at one exactly. -/
def evenOffset (count index : Nat) : ν :=
  if index + 1 = count then 1
  else Scalar.ofCount index / Scalar.ofCount (count - 1)

/-- Evenly spaced positions from zero to one; a single step stands at one. -/
def evenOffsets (count : Nat) : List ν :=
  (List.range count).map (evenOffset count)

/-- The positions of a keyframe list. -/
def keyframeOffsets (steps : List (StyleStep ν)) : List ν :=
  let declared := steps.filterMap StyleStep.offset?
  if declared ≠ [] ∧ declared.length = steps.length then declared.map Scalar.clampToUnit
  else evenOffsets steps.length

end

/-! ## Trees -/

variable {ν : Type}

/-- What an animated step moves to. -/
inductive Payload (ν : Type) where
  | style (step : StyleStep ν)
  | keyframes (steps : List (StyleStep ν))
deriving DecidableEq

/-- An animation tree. -/
inductive Tree (ν : Type) where
  /-- One state, or several separated by commas, and its styles. -/
  | state (name : String) (styles : StyleStep ν)
  /-- The animation of the state changes that an expression admits. -/
  | transition (expression : String) (animation : Tree ν) (params : Params ν)
  | sequence (steps : List (Tree ν))
  | group (steps : List (Tree ν))
  /-- An animated step; without a payload it moves to whatever styles follow. -/
  | animate (timing : Timing ν) (payload : Option (Payload ν))
  | keyframes (steps : List (StyleStep ν))
  | style (step : StyleStep ν)
  | trigger (name : String) (definitions : List (Tree ν))
  /-- A reusable animation with default parameters. -/
  | reference (animation : Tree ν) (defaults : Params ν)
  | animateChild (params : Params ν)
  /-- A reusable animation run with parameters of its own. -/
  | animateRef (animation : Tree ν) (defaults : Params ν) (overrides : Params ν)
  | query (selector : String) (animation : Tree ν) (optional : Bool) (limit : Option UInt64)
  | stagger (timing : Timing ν) (animation : Tree ν)

namespace Tree

/-- The kind of the root of a tree. -/
def kind : Tree ν → NodeKind
  | state .. => .state
  | transition .. => .transition
  | sequence .. => .sequence
  | group .. => .group
  | animate .. => .animate
  | keyframes .. => .keyframes
  | style .. => .style
  | trigger .. => .trigger
  | reference .. => .reference
  | animateChild .. => .animateChild
  | animateRef .. => .animateRef
  | query .. => .query
  | stagger .. => .stagger

/-! ### Building trees -/

/-- An animated step towards a style. -/
def animateTo (timing : Timing ν) (step : StyleStep ν) : Tree ν :=
  animate timing (some (.style step))

/-- An animated step through a keyframe list. -/
def animateThrough (timing : Timing ν) (steps : List (StyleStep ν)) : Tree ν :=
  animate timing (some (.keyframes steps))

/-- An animated step without a payload. -/
def animateEmpty (timing : Timing ν) : Tree ν :=
  animate timing none

/-- A transition without default parameters. -/
def plainTransition (expression : String) (animation : Tree ν) : Tree ν :=
  transition expression animation ∅

/-- A query that must find elements, without a limit. -/
def requiredQuery (selector : String) (animation : Tree ν) : Tree ν :=
  query selector animation false none

/-- A request to run the animations of child elements. -/
def plainAnimateChild : Tree ν :=
  animateChild ∅

end Tree

end Storyboard
