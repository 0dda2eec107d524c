import Storyboard.Proofs.Tree.Properties
import Storyboard.Validation

/-!
# The agenda of a tree

Which properties a tree animates, and when. `Tree.clockAfter` says at what time a plain clock
leaves a tree that it enters at a given time, and `Tree.agenda` lists the bookings made on that
clock, in the order of the document: an animated style books each of its properties from the end
of the step back by its length, a keyframe list books the properties of each step since the step
before, and a bare style books a point. The reserved names of a style book nothing.

Both are recursions over the tree alone: there is no table of windows, and nothing is reported or
left out. They describe trees without transitions (`Tree.TransitionFree`), since a transition runs
on a clock of its own.

`Tree.Meets` says that a clock which enters a tree comes to a node of it, in which scope and at
which time. The bookings of such a node stand together in the agenda of the tree
(`Tree.Meets.agenda_eq`).
-/

set_option autoImplicit false

namespace Storyboard

variable {ν : Type} [Scalar ν]

/-! ## Bookings -/

/-- A property and the window in which it is animated. -/
structure Booking (ν : Type) where
  property : String
  window : Window ν
deriving DecidableEq

/-- The bookings of a style that is written in a window. -/
def StyleStep.bookings (step : StyleStep ν) (window : Window ν) : List (Booking ν) :=
  step.properties.map fun property => ⟨property, window⟩

/-- The bookings of the steps of a keyframe list, each since the step before it. -/
def keyframeBookings (origin duration : ν) :
    List (StyleStep ν × ν) → ν → List (Booking ν)
  | [], _ => []
  | (step, offset) :: rest, previous =>
    let reached := Scalar.larger (origin + offset * duration) previous
    step.bookings ⟨previous, reached⟩ ++ keyframeBookings origin duration rest reached

/-- The bookings of an animated step that starts at a time. -/
def Payload.bookings (timings : Timings ν) (clock : ν) : Payload ν → List (Booking ν)
  | .style step =>
    step.bookings ⟨clock + timings.total - timings.total, clock + timings.total⟩
  | .keyframes steps =>
    keyframeBookings (clock + timings.delay) timings.duration
      (steps.zip (keyframeOffsets steps)) (clock + timings.delay)

/-! ## The clock and the agenda -/

mutual

/-- The time at which a clock leaves a tree. -/
def Tree.clockAfter (scope : Params ν) : Tree ν → ν → ν
  | .sequence steps, clock => Tree.clockAfterSteps scope steps clock
  | .group branches, clock => Tree.furthestClock scope clock branches clock
  | .animate timing _, clock => clock + (timing.resolve scope).1.total
  | .reference animation defaults, clock =>
    Tree.clockAfter (referenceScope defaults scope) animation clock
  | .animateRef animation defaults overrides, clock =>
    Tree.clockAfter (invocationScope defaults scope overrides) animation clock
  | .trigger _ definitions, clock => Tree.clockAfterSteps scope definitions clock
  | _, clock => clock

/-- The time at which a clock leaves steps that run one after the other. -/
def Tree.clockAfterSteps (scope : Params ν) : List (Tree ν) → ν → ν
  | [], clock => clock
  | step :: rest, clock => Tree.clockAfterSteps scope rest (Tree.clockAfter scope step clock)

/-- The furthest time that a branch reaches, or the one given if that is further. -/
def Tree.furthestClock (scope : Params ν) (origin : ν) : List (Tree ν) → ν → ν
  | [], furthest => furthest
  | branch :: rest, furthest =>
    Tree.furthestClock scope origin rest
      (Scalar.larger furthest (Tree.clockAfter scope branch origin))

end

mutual

/-- The bookings of a tree that a clock enters, in the order of the document. -/
def Tree.agenda (scope : Params ν) : Tree ν → ν → List (Booking ν)
  | .sequence steps, clock => Tree.agendaSteps scope steps clock
  | .group branches, clock => Tree.agendaBranches scope branches clock
  | .animate timing (some payload), clock => payload.bookings (timing.resolve scope).1 clock
  | .style step, clock => step.bookings ⟨clock, clock⟩
  | .reference animation defaults, clock =>
    Tree.agenda (referenceScope defaults scope) animation clock
  | .animateRef animation defaults overrides, clock =>
    Tree.agenda (invocationScope defaults scope overrides) animation clock
  | .trigger _ definitions, clock => Tree.agendaSteps scope definitions clock
  | _, _ => []

/-- The bookings of steps that run one after the other. -/
def Tree.agendaSteps (scope : Params ν) : List (Tree ν) → ν → List (Booking ν)
  | [], _ => []
  | step :: rest, clock =>
    Tree.agenda scope step clock ++ Tree.agendaSteps scope rest (Tree.clockAfter scope step clock)

/-- The bookings of branches that run side by side. -/
def Tree.agendaBranches (scope : Params ν) : List (Tree ν) → ν → List (Booking ν)
  | [], _ => []
  | branch :: rest, origin =>
    Tree.agenda scope branch origin ++ Tree.agendaBranches scope rest origin

end

mutual

/-- No node of the tree is a transition. -/
def Tree.TransitionFree : Tree ν → Prop
  | .transition .. => False
  | .sequence steps => Tree.AllTransitionFree steps
  | .group branches => Tree.AllTransitionFree branches
  | .trigger _ definitions => Tree.AllTransitionFree definitions
  | .reference animation _ => animation.TransitionFree
  | .animateRef animation _ _ => animation.TransitionFree
  | .query _ animation _ _ => animation.TransitionFree
  | .stagger _ animation => animation.TransitionFree
  | _ => True

/-- No node of the trees is a transition. -/
def Tree.AllTransitionFree : List (Tree ν) → Prop
  | [] => True
  | tree :: rest => tree.TransitionFree ∧ Tree.AllTransitionFree rest

end

/-! ## Coming to a node -/

/-- A clock that enters a tree in a scope at a time comes to a node in a scope at a time. -/
inductive Tree.Meets : Params ν → ν → Tree ν → Params ν → ν → Tree ν → Prop where
  | here (scope : Params ν) (clock : ν) (node : Tree ν) : Meets scope clock node scope clock node
  | step {scope inner : Params ν} {clock time : ν} {step node : Tree ν}
      (earlier later : List (Tree ν))
      (inside : Meets scope (Tree.clockAfterSteps scope earlier clock) step inner time node) :
      Meets scope clock (.sequence (earlier ++ step :: later)) inner time node
  | branch {scope inner : Params ν} {clock time : ν} {branch node : Tree ν}
      (earlier later : List (Tree ν)) (inside : Meets scope clock branch inner time node) :
      Meets scope clock (.group (earlier ++ branch :: later)) inner time node
  | reference {scope inner : Params ν} {clock time : ν} {animation node : Tree ν}
      (defaults : Params ν)
      (inside : Meets (referenceScope defaults scope) clock animation inner time node) :
      Meets scope clock (.reference animation defaults) inner time node
  | animateRef {scope inner : Params ν} {clock time : ν} {animation node : Tree ν}
      (defaults overrides : Params ν)
      (inside : Meets (invocationScope defaults scope overrides) clock animation inner time node) :
      Meets scope clock (.animateRef animation defaults overrides) inner time node
  | definition {scope inner : Params ν} {clock time : ν} {definition node : Tree ν}
      (name : String) (earlier later : List (Tree ν))
      (inside : Meets scope (Tree.clockAfterSteps scope earlier clock) definition inner time
        node) :
      Meets scope clock (.trigger name (earlier ++ definition :: later)) inner time node

theorem Tree.agendaSteps_append (scope : Params ν) (earlier later : List (Tree ν)) (clock : ν) :
    Tree.agendaSteps scope (earlier ++ later) clock =
      Tree.agendaSteps scope earlier clock ++
        Tree.agendaSteps scope later (Tree.clockAfterSteps scope earlier clock) := by
  induction earlier generalizing clock with
  | nil => rfl
  | cons step rest ih =>
    simp only [List.cons_append, Tree.agendaSteps, Tree.clockAfterSteps, ih, List.append_assoc]

theorem Tree.agendaBranches_append (scope : Params ν) (earlier later : List (Tree ν)) (clock : ν) :
    Tree.agendaBranches scope (earlier ++ later) clock =
      Tree.agendaBranches scope earlier clock ++ Tree.agendaBranches scope later clock := by
  induction earlier with
  | nil => rfl
  | cons branch rest ih =>
    simp only [List.cons_append, Tree.agendaBranches, ih, List.append_assoc]

/-- The bookings of a node stand together in the agenda of a tree that comes to it. -/
theorem Tree.Meets.agenda_eq {scope inner : Params ν} {clock time : ν} {tree node : Tree ν}
    (met : Tree.Meets scope clock tree inner time node) :
    ∃ before after, tree.agenda scope clock = before ++ node.agenda inner time ++ after := by
  induction met with
  | here => exact ⟨[], [], by rw [List.nil_append, List.append_nil]⟩
  | @step scope _ clock _ step _ earlier later _ ih
  | @definition scope _ clock _ step _ _ earlier later _ ih =>
    obtain ⟨before, after, split⟩ := ih
    refine ⟨Tree.agendaSteps scope earlier clock ++ before, after ++ Tree.agendaSteps scope later
      (Tree.clockAfter scope step (Tree.clockAfterSteps scope earlier clock)), ?_⟩
    simp only [Tree.agenda, Tree.agendaSteps_append, Tree.agendaSteps, split, List.append_assoc]
  | @branch scope _ clock _ _ _ earlier later _ ih =>
    obtain ⟨before, after, split⟩ := ih
    refine ⟨Tree.agendaBranches scope earlier clock ++ before,
      after ++ Tree.agendaBranches scope later clock, ?_⟩
    simp only [Tree.agenda, Tree.agendaBranches_append, Tree.agendaBranches, split,
      List.append_assoc]
  | reference _ _ ih | animateRef _ _ _ ih =>
    rw [Tree.agenda]
    exact ih

end Storyboard
