/-!
# The kinds of nodes

The thirteen kinds of nodes of an animation tree. A kind has a name, used in messages, and a tag,
used in documents. Some rules look only at the kind of the node that was visited before.
-/

set_option autoImplicit false

namespace Storyboard

/-- The kind of a node of an animation tree. -/
inductive NodeKind where
  | state
  | transition
  | sequence
  | group
  | animate
  | keyframes
  | style
  | trigger
  | reference
  | animateChild
  | animateRef
  | query
  | stagger
deriving DecidableEq, Repr

namespace NodeKind

/-- All kinds, in the order of their indices in documents. -/
def all : List NodeKind :=
  [state, transition, sequence, group, animate, keyframes, style, trigger, reference,
    animateChild, animateRef, query, stagger]

/-- The name of a kind in messages. -/
def name : NodeKind → String
  | state => "State"
  | transition => "Transition"
  | sequence => "Sequence"
  | group => "Group"
  | animate => "Animate"
  | keyframes => "Keyframes"
  | style => "Style"
  | trigger => "Trigger"
  | reference => "Reference"
  | animateChild => "AnimateChild"
  | animateRef => "AnimateRef"
  | query => "Query"
  | stagger => "Stagger"

/-- The tag of a kind in documents. -/
def tag : NodeKind → String
  | state => "state"
  | transition => "transition"
  | sequence => "sequence"
  | group => "group"
  | animate => "animate"
  | keyframes => "keyframes"
  | style => "style"
  | trigger => "trigger"
  | reference => "reference"
  | animateChild => "animateChild"
  | animateRef => "animateRef"
  | query => "query"
  | stagger => "stagger"

/-- The kind with a tag. -/
def ofTag? (tag : String) : Option NodeKind :=
  all.find? fun kind => kind.tag == tag

theorem ofTag?_tag (kind : NodeKind) : ofTag? kind.tag = some kind := by
  cases kind <;> decide

end NodeKind

end Storyboard
