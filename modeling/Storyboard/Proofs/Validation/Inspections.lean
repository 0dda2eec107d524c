import Storyboard.Proofs.Validation.Occupancy

/-!
# The styles that a validation checks

`Tree.inspections` lists the styles that a clock comes to in a tree, in the order of the document,
each with its scope and the window in which it is checked: an animated style from the end of its
step back by the length of the step, a keyframe since the keyframe before it, a bare style at a
point. A transition is inspected on a clock of its own.

These are the checks of the validation: what the walk books in a tree without transitions is what
its inspections book, one after the other (`Survey.books_inspections`).
-/

set_option autoImplicit false

namespace Storyboard

variable {ν : Type} [Scalar ν]

/-! ## Inspections -/

/-- A style that is checked in a scope, and the window in which it is written. -/
structure Inspection (ν : Type) where
  step : StyleStep ν
  scope : Params ν
  window : Window ν

/-- The bookings that an inspection makes. -/
def Inspection.bookings (inspection : Inspection ν) : List (Booking ν) :=
  inspection.step.bookings inspection.window

/-- The inspections of the steps of a keyframe list, each since the step before it. -/
def keyframeInspections (scope : Params ν) (origin duration : ν) :
    List (StyleStep ν × ν) → ν → List (Inspection ν)
  | [], _ => []
  | (step, offset) :: rest, previous =>
    let reached := Scalar.larger (origin + offset * duration) previous
    ⟨step, scope, ⟨previous, reached⟩⟩ :: keyframeInspections scope origin duration rest reached

/-- The inspections of an animated step that starts at a time. -/
def Payload.inspections (scope : Params ν) (timings : Timings ν) (clock : ν) :
    Payload ν → List (Inspection ν)
  | .style step => [⟨step, scope, ⟨clock + timings.total - timings.total, clock + timings.total⟩⟩]
  | .keyframes steps =>
    keyframeInspections scope (clock + timings.delay) timings.duration
      (steps.zip (keyframeOffsets steps)) (clock + timings.delay)

mutual

/-- The inspections of a tree that a clock enters, in the order of the document. -/
def Tree.inspections (scope : Params ν) : Tree ν → ν → List (Inspection ν)
  | .sequence steps, clock => Tree.stepInspections scope steps clock
  | .group branches, clock => Tree.branchInspections scope branches clock
  | .animate timing (some payload), clock =>
    payload.inspections scope (timing.resolve scope).1 clock
  | .style step, clock => [⟨step, scope, ⟨clock, clock⟩⟩]
  | .reference animation defaults, clock =>
    Tree.inspections (referenceScope defaults scope) animation clock
  | .animateRef animation defaults overrides, clock =>
    Tree.inspections (invocationScope defaults scope overrides) animation clock
  | .trigger _ definitions, clock => Tree.stepInspections scope definitions clock
  | .transition _ animation params, _ =>
    Tree.inspections (referenceScope params scope) animation 0
  | _, _ => []

/-- The inspections of steps that run one after the other. -/
def Tree.stepInspections (scope : Params ν) : List (Tree ν) → ν → List (Inspection ν)
  | [], _ => []
  | step :: rest, clock =>
    Tree.inspections scope step clock ++
      Tree.stepInspections scope rest (Tree.clockAfter scope step clock)

/-- The inspections of branches that run side by side. -/
def Tree.branchInspections (scope : Params ν) : List (Tree ν) → ν → List (Inspection ν)
  | [], _ => []
  | branch :: rest, origin =>
    Tree.inspections scope branch origin ++ Tree.branchInspections scope rest origin

end

/-! ## What the inspections book -/

theorem keyframeBookings_eq_flatMap (scope : Params ν) (origin duration : ν) :
    ∀ (steps : List (StyleStep ν × ν)) (previous : ν),
      keyframeBookings origin duration steps previous =
        (keyframeInspections scope origin duration steps previous).flatMap Inspection.bookings
  | [], _ => rfl
  | (step, offset) :: rest, previous => by
    simp only [keyframeBookings, keyframeInspections, List.flatMap_cons,
      keyframeBookings_eq_flatMap scope origin duration rest]
    rfl

theorem Payload.bookings_eq_flatMap (scope : Params ν) (timings : Timings ν) (clock : ν)
    (payload : Payload ν) :
    payload.bookings timings clock =
      (payload.inspections scope timings clock).flatMap Inspection.bookings := by
  cases payload with
  | style step => exact (List.flatMap_singleton _ _).symm
  | keyframes steps => exact keyframeBookings_eq_flatMap scope _ _ _ _

mutual

/-- The agenda of a tree without transitions is what its inspections book. -/
theorem Tree.agenda_eq_flatMap : ∀ (tree : Tree ν), tree.TransitionFree →
    ∀ (scope : Params ν) (clock : ν),
      tree.agenda scope clock = (tree.inspections scope clock).flatMap Inspection.bookings
  | .sequence steps, free, scope, clock => Tree.agendaSteps_eq_flatMap steps free scope clock
  | .group branches, free, scope, clock => Tree.agendaBranches_eq_flatMap branches free scope clock
  | .animate timing (some payload), _, scope, clock => payload.bookings_eq_flatMap scope _ clock
  | .animate _ none, _, _, _ => rfl
  | .style step, _, scope, clock => (List.flatMap_singleton Inspection.bookings
      (⟨step, scope, ⟨clock, clock⟩⟩ : Inspection ν)).symm
  | .reference animation defaults, free, scope, clock => by
    rw [agenda, inspections]
    exact agenda_eq_flatMap animation free _ clock
  | .animateRef animation defaults overrides, free, scope, clock => by
    rw [agenda, inspections]
    exact agenda_eq_flatMap animation free _ clock
  | .trigger _ definitions, free, scope, clock =>
    Tree.agendaSteps_eq_flatMap definitions free scope clock
  | .transition .., free, _, _ => free.elim
  | .state .., _, _, _ => rfl
  | .keyframes .., _, _, _ => rfl
  | .query .., _, _, _ => rfl
  | .stagger .., _, _, _ => rfl
  | .animateChild .., _, _, _ => rfl

theorem Tree.agendaSteps_eq_flatMap : ∀ (steps : List (Tree ν)), Tree.AllTransitionFree steps →
    ∀ (scope : Params ν) (clock : ν),
      Tree.agendaSteps scope steps clock =
        (Tree.stepInspections scope steps clock).flatMap Inspection.bookings
  | [], _, _, _ => rfl
  | step :: rest, free, scope, clock => by
    rw [agendaSteps, stepInspections, List.flatMap_append, agenda_eq_flatMap step free.1,
      agendaSteps_eq_flatMap rest free.2]

theorem Tree.agendaBranches_eq_flatMap : ∀ (branches : List (Tree ν)),
    Tree.AllTransitionFree branches → ∀ (scope : Params ν) (clock : ν),
      Tree.agendaBranches scope branches clock =
        (Tree.branchInspections scope branches clock).flatMap Inspection.bookings
  | [], _, _, _ => rfl
  | branch :: rest, free, scope, clock => by
    rw [agendaBranches, branchInspections, List.flatMap_append, agenda_eq_flatMap branch free.1,
      agendaBranches_eq_flatMap rest free.2]

end

/-- **The walk of the validation books what its inspections book**, in order. -/
theorem Survey.books_inspections {tree : Tree ν} (free : tree.TransitionFree) (scope : Params ν)
    (survey : Survey ν) :
    survey.Books ((tree.inspections scope survey.clock).flatMap Inspection.bookings)
      (visit scope tree survey) := by
  rw [← tree.agenda_eq_flatMap free]
  exact books_visit tree free scope survey

end Storyboard
