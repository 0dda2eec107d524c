import Storyboard.Proofs.Number.Sums
import Storyboard.Proofs.Timeline.WellTimed
import Storyboard.Proofs.Timing.Resolution
import Storyboard.Proofs.Tree.Offsets
import Storyboard.Proofs.Validation.Spans

/-!
# Properties that branches do not share

When no group animates a property in two of its branches, the windows of a property follow one
another, and nothing should be reported. What has to hold for this is that every animated step books
inside of its own slot, from the time at which the clock comes to it to the time at which the clock
leaves it (`Bout.InSlot`). Slots are passed on by the walk: a sequence strings them together, a
group takes the slots of its branches into one (`Tree.timetable`), and a booking behind a slot never
begins before one inside of it ends.

As long as the steps keep to their slots, unshared properties never collide
(`Tree.unshared_properties_never_collide`). With exact numbers they always do (`Bout.inSlot`,
`Tree.uncollided_of_exact`). With rounded ones they need not: the start of a step is computed from
its end, the difference is rounded a second time, and two steps in a row may be reported as parallel
(`fractionalSteps_are_reported`).
-/

set_option autoImplicit false

namespace Storyboard

variable {ν : Type} [Scalar ν]

/-! ## The properties that are animated on a clock -/

mutual

/-- The properties that are animated on the clock of a tree; a transition runs on another one. -/
def Tree.bookedProperties : Tree ν → List String
  | .sequence steps => Tree.allBookedProperties steps
  | .group branches => Tree.allBookedProperties branches
  | .animate _ payload => (payload.map Payload.properties).getD []
  | .style step => step.properties
  | .reference animation _ => animation.bookedProperties
  | .animateRef animation _ _ => animation.bookedProperties
  | .trigger _ definitions => Tree.allBookedProperties definitions
  | _ => []

/-- The properties that are animated on the clock of several trees. -/
def Tree.allBookedProperties : List (Tree ν) → List String
  | [] => []
  | tree :: rest => tree.bookedProperties ++ Tree.allBookedProperties rest

end

omit [Scalar ν] in
theorem StyleStep.mem_bookings {step : StyleStep ν} {window : Window ν} {booking : Booking ν}
    (booked : booking ∈ step.bookings window) :
    booking.property ∈ step.properties ∧ booking.window = window := by
  obtain ⟨property, member, rfl⟩ := List.mem_map.1 booked
  exact ⟨member, rfl⟩

theorem property_mem_of_keyframeBookings (origin duration : ν) {booking : Booking ν} :
    ∀ (steps : List (StyleStep ν × ν)) (previous : ν),
      booking ∈ keyframeBookings origin duration steps previous →
        ∃ step ∈ steps, booking.property ∈ step.1.properties
  | [], _, booked => absurd booked List.not_mem_nil
  | (step, offset) :: rest, previous, booked => by
    rcases List.mem_append.1 booked with here | later
    · exact ⟨_, List.mem_cons_self, (StyleStep.mem_bookings here).1⟩
    · obtain ⟨found, member, named⟩ := property_mem_of_keyframeBookings origin duration rest _ later
      exact ⟨found, List.mem_cons_of_mem _ member, named⟩

theorem Payload.property_mem_of_bookings {payload : Payload ν} {timings : Timings ν} {clock : ν}
    {booking : Booking ν} (booked : booking ∈ payload.bookings timings clock) :
    booking.property ∈ payload.properties := by
  cases payload with
  | style step => exact (StyleStep.mem_bookings booked).1
  | keyframes steps =>
    obtain ⟨step, member, named⟩ := property_mem_of_keyframeBookings _ _ _ _ booked
    exact List.mem_flatMap.2 ⟨step.1, (List.of_mem_zip member).1, named⟩

mutual

/-- The agenda of a tree books no other properties. -/
theorem Tree.property_mem_of_agenda {booking : Booking ν} : ∀ (tree : Tree ν) (scope : Params ν)
    (clock : ν), booking ∈ tree.agenda scope clock → booking.property ∈ tree.bookedProperties
  | .sequence steps, scope, clock, booked => property_mem_of_agendaSteps steps scope clock booked
  | .group branches, scope, clock, booked =>
    property_mem_of_agendaBranches branches scope clock booked
  | .animate _ (some _), _, _, booked => Payload.property_mem_of_bookings booked
  | .style _, _, _, booked => (StyleStep.mem_bookings booked).1
  | .reference animation _, _, clock, booked => by
    rw [Tree.agenda] at booked
    exact property_mem_of_agenda animation _ clock booked
  | .animateRef animation _ _, _, clock, booked => by
    rw [Tree.agenda] at booked
    exact property_mem_of_agenda animation _ clock booked
  | .trigger _ definitions, scope, clock, booked =>
    property_mem_of_agendaSteps definitions scope clock booked
  | .animate _ none, _, _, booked | .state .., _, _, booked | .transition .., _, _, booked
  | .keyframes .., _, _, booked | .query .., _, _, booked | .stagger .., _, _, booked
  | .animateChild .., _, _, booked => absurd booked List.not_mem_nil

theorem Tree.property_mem_of_agendaSteps {booking : Booking ν} : ∀ (steps : List (Tree ν))
    (scope : Params ν) (clock : ν), booking ∈ Tree.agendaSteps scope steps clock →
      booking.property ∈ Tree.allBookedProperties steps
  | [], _, _, booked => absurd booked List.not_mem_nil
  | step :: rest, scope, clock, booked => by
    rcases List.mem_append.1 booked with here | later
    · exact List.mem_append_left _ (property_mem_of_agenda step scope clock here)
    · exact List.mem_append_right _ (property_mem_of_agendaSteps rest scope _ later)

theorem Tree.property_mem_of_agendaBranches {booking : Booking ν} : ∀ (branches : List (Tree ν))
    (scope : Params ν) (clock : ν), booking ∈ Tree.agendaBranches scope branches clock →
      booking.property ∈ Tree.allBookedProperties branches
  | [], _, _, booked => absurd booked List.not_mem_nil
  | branch :: rest, scope, clock, booked => by
    rcases List.mem_append.1 booked with here | later
    · exact List.mem_append_left _ (property_mem_of_agenda branch scope clock here)
    · exact List.mem_append_right _ (property_mem_of_agendaBranches rest scope clock later)

end

/-- No property is animated in both trees, on a clock that enters both. -/
def Tree.BookedApart (first second : Tree ν) : Prop :=
  ∀ property ∈ first.bookedProperties, property ∉ second.bookedProperties

instance (first second : Tree ν) : Decidable (first.BookedApart second) :=
  inferInstanceAs
    (Decidable (∀ property ∈ first.bookedProperties, property ∉ second.bookedProperties))

/-- No property is animated in two branches of a group; any other node is admitted. -/
def Tree.BranchesApart : Tree ν → Prop
  | .group branches => branches.Pairwise Tree.BookedApart
  | _ => True

instance : DecidablePred (Tree.BranchesApart (ν := ν))
  | .group branches => inferInstanceAs (Decidable (branches.Pairwise Tree.BookedApart))
  | .animate .. | .state .. | .transition .. | .sequence _ | .keyframes _ | .style _
  | .trigger .. | .reference .. | .animateChild _ | .animateRef .. | .query ..
  | .stagger .. => .isTrue trivial

omit [Scalar ν] in
theorem Tree.bookedApart_of_pairwise {first : Tree ν} {rest : List (Tree ν)}
    (apart : ∀ second ∈ rest, first.BookedApart second) :
    ∀ property ∈ first.bookedProperties, property ∉ Tree.allBookedProperties rest := by
  intro property member
  induction rest with
  | nil => exact List.not_mem_nil
  | cons second rest ih =>
    obtain ⟨next, others⟩ := List.forall_mem_cons.1 apart
    exact fun booked => (List.mem_append.1 booked).elim (next property member) (ih others)

/-! ## Slots -/

/-- An animated step, the scope in which a clock comes to it, and the time at which it does. -/
structure Bout (ν : Type) where
  scope : Params ν
  clock : ν
  timing : Timing ν
  payload : Option (Payload ν)

namespace Bout

/-- The resolved timings of the step. -/
def timings (bout : Bout ν) : Timings ν :=
  (bout.timing.resolve bout.scope).1

/-- The time at which the clock leaves the step. -/
def finish (bout : Bout ν) : ν :=
  bout.clock + bout.timings.total

/-- The bookings that the step makes. -/
def bookings (bout : Bout ν) : List (Booking ν) :=
  (bout.payload.map fun payload => payload.bookings bout.timings bout.clock).getD []

end Bout

/-- The window begins at one time at the earliest, and ends at another at the latest. -/
def Window.Within (window : Window ν) (opening closing : ν) : Prop :=
  Scalar.atMost opening window.start = true ∧ Scalar.atMost window.stop closing = true

instance (window : Window ν) (opening closing : ν) : Decidable (window.Within opening closing) :=
  inferInstanceAs (Decidable (_ ∧ _))

/-- The step does not end before it begins, and books nothing outside of that time. -/
def Bout.InSlot (bout : Bout ν) : Prop :=
  Scalar.atMost bout.clock bout.finish = true ∧
    ∀ booking ∈ bout.bookings, booking.window.Within bout.clock bout.finish

instance (bout : Bout ν) : Decidable bout.InSlot :=
  inferInstanceAs (Decidable (_ ∧ _))

mutual

/-- The animated steps that a clock comes to in a tree. -/
def Tree.bouts (scope : Params ν) : Tree ν → ν → List (Bout ν)
  | .sequence steps, clock => Tree.boutsOfSteps scope steps clock
  | .group branches, clock => Tree.boutsOfBranches scope branches clock
  | .animate timing payload, clock => [⟨scope, clock, timing, payload⟩]
  | .reference animation defaults, clock =>
    Tree.bouts (referenceScope defaults scope) animation clock
  | .animateRef animation defaults overrides, clock =>
    Tree.bouts (invocationScope defaults scope overrides) animation clock
  | .trigger _ definitions, clock => Tree.boutsOfSteps scope definitions clock
  | _, _ => []

/-- The animated steps that a clock comes to in steps that run one after the other. -/
def Tree.boutsOfSteps (scope : Params ν) : List (Tree ν) → ν → List (Bout ν)
  | [], _ => []
  | step :: rest, clock =>
    Tree.bouts scope step clock ++ Tree.boutsOfSteps scope rest (Tree.clockAfter scope step clock)

/-- The animated steps that a clock comes to in branches that run side by side. -/
def Tree.boutsOfBranches (scope : Params ν) : List (Tree ν) → ν → List (Bout ν)
  | [], _ => []
  | branch :: rest, clock => Tree.bouts scope branch clock ++ Tree.boutsOfBranches scope rest clock

end

/-! ## Timetables -/

/-- If both bookings are of one property, then the later one begins when the earlier one is over. -/
def Booking.Precedes (earlier later : Booking ν) : Prop :=
  earlier.property = later.property → ¬later.window.start < earlier.window.stop

/-- An agenda between two times, in which the windows of each property follow one another. -/
structure Timetable (opening closing : ν) (agenda : List (Booking ν)) : Prop where
  forward : Scalar.atMost opening closing = true
  within : ∀ booking ∈ agenda, booking.window.Within opening closing
  ordered : agenda.Pairwise Booking.Precedes

/-- A style books each property once. -/
theorem StyleStep.pairwise_bookings (step : StyleStep ν) (window : Window ν) :
    (step.bookings window).Pairwise Booking.Precedes := by
  have distinct : step.properties.Nodup := step.merged.nodup_keys.filter _
  refine List.pairwise_map.2 (distinct.imp ?_)
  intro first second different same
  exact absurd same different

namespace Timetable

theorem nil {clock : ν} (proper : (clock == clock) = true) : Timetable clock clock [] :=
  ⟨Scalar.atMost_self proper, fun _ booked => absurd booked List.not_mem_nil, List.Pairwise.nil⟩

variable {opening middle closing : ν} {first second : List (Booking ν)}

/-- Two agendas side by side, which book no property in common. -/
theorem beside (table : Timetable opening closing first)
    (other : Timetable opening closing second)
    (apart : ∀ booking ∈ first, ∀ beside ∈ second, booking.property ≠ beside.property) :
    Timetable opening closing (first ++ second) where
  forward := table.forward
  within booking booked :=
    (List.mem_append.1 booked).elim (table.within booking) (other.within booking)
  ordered := List.pairwise_append.2 ⟨table.ordered, other.ordered,
    fun booking booked beside bookedBeside same =>
      absurd same (apart booking booked beside bookedBeside)⟩

variable [LawfulScalar ν]

theorem widen (table : Timetable opening middle first)
    (later : Scalar.atMost middle closing = true) : Timetable opening closing first where
  forward := Scalar.atMost_trans table.forward later
  within booking booked := ⟨(table.within booking booked).1,
    Scalar.atMost_trans (table.within booking booked).2 later⟩
  ordered := table.ordered

/-- One agenda after the other. -/
theorem append (earlier : Timetable opening middle first)
    (later : Timetable middle closing second) : Timetable opening closing (first ++ second) where
  forward := Scalar.atMost_trans earlier.forward later.forward
  within booking booked := by
    rcases List.mem_append.1 booked with inside | inside
    · exact (earlier.widen later.forward).within booking inside
    · obtain ⟨starts, stops⟩ := later.within booking inside
      exact ⟨Scalar.atMost_trans earlier.forward starts, stops⟩
  ordered := by
    refine List.pairwise_append.2 ⟨earlier.ordered, later.ordered, ?_⟩
    intro before booked after bookedLater _
    exact Scalar.not_lt_of_atMost
      (Scalar.atMost_trans (earlier.within before booked).2 (later.within after bookedLater).1)

end Timetable

/-! ## Keyframe lists -/

section Keyframes

variable [LawfulScalar ν]

/-- No keyframe books before the keyframe that it follows. -/
theorem atMost_start_of_keyframeBookings (origin duration : ν) {booking : Booking ν} :
    ∀ (steps : List (StyleStep ν × ν)) (previous : ν), (previous == previous) = true →
      booking ∈ keyframeBookings origin duration steps previous →
        Scalar.atMost previous booking.window.start = true
  | [], _, _, booked => absurd booked List.not_mem_nil
  | (step, offset) :: rest, previous, proper, booked => by
    rcases List.mem_append.1 booked with here | later
    · rw [(StyleStep.mem_bookings here).2]
      exact Scalar.atMost_self proper
    · have reached := Scalar.second_atMost_larger (origin + offset * duration) proper
      exact Scalar.atMost_trans reached (atMost_start_of_keyframeBookings origin duration rest _
        (Scalar.proper_of_atMost reached).2 later)

/-- The windows of a keyframe list follow one another. -/
theorem pairwise_keyframeBookings (origin duration : ν) :
    ∀ (steps : List (StyleStep ν × ν)) (previous : ν),
      (∀ booking ∈ keyframeBookings origin duration steps previous,
        (booking.window.start == booking.window.start) = true) →
        (keyframeBookings origin duration steps previous).Pairwise Booking.Precedes
  | [], _, _ => List.Pairwise.nil
  | (step, offset) :: rest, previous, proper => by
    obtain ⟨here, later⟩ := List.forall_mem_append.1 proper
    refine List.pairwise_append.2 ⟨step.pairwise_bookings _,
      pairwise_keyframeBookings origin duration rest _ later, ?_⟩
    intro booking booked after bookedLater _
    have started := here booking booked
    rw [(StyleStep.mem_bookings booked).2] at started ⊢
    have reached := Scalar.second_atMost_larger (origin + offset * duration) started
    exact Scalar.not_lt_of_atMost (atMost_start_of_keyframeBookings origin duration rest _
      (Scalar.proper_of_atMost reached).2 bookedLater)

end Keyframes

/-! ## The walk passes slots on -/

section Walk

variable [LawfulScalar ν]

/-- A step that keeps to its slot. -/
theorem Bout.InSlot.timetable {bout : Bout ν} (slot : bout.InSlot) :
    Timetable bout.clock bout.finish bout.bookings := by
  refine ⟨slot.1, slot.2, ?_⟩
  have proper := fun booking booked => (Scalar.proper_of_atMost (slot.2 booking booked).1).2
  obtain ⟨scope, clock, timing, payload⟩ := bout
  cases payload with
  | none => exact List.Pairwise.nil
  | some payload =>
    cases payload with
    | style step => exact step.pairwise_bookings _
    | keyframes steps => exact pairwise_keyframeBookings _ _ _ _ proper

mutual

/-- **The bookings of a tree keep to the slot of the tree**, and the windows of each property follow
one another, if its steps keep to their slots and no group animates a property in two branches. -/
theorem Tree.timetable : ∀ (tree : Tree ν), (∀ node ∈ tree.nodes, node.BranchesApart) →
    ∀ (scope : Params ν) (clock : ν), (clock == clock) = true →
      (∀ bout ∈ tree.bouts scope clock, bout.InSlot) →
        Timetable clock (tree.clockAfter scope clock) (tree.agenda scope clock)
  | .sequence steps, apart, scope, clock, proper, slots =>
    timetableSteps steps (List.forall_mem_cons.1 apart).2 scope clock proper slots
  | .group branches, apart, scope, clock, proper, slots =>
    (timetableBranches branches (List.forall_mem_cons.1 apart).1 (List.forall_mem_cons.1 apart).2
      scope clock clock (Scalar.atMost_self proper) slots).1
  | .animate timing payload, _, scope, clock, _, slots => by
    have slot := (slots ⟨scope, clock, timing, payload⟩ (List.mem_singleton.2 rfl)).timetable
    cases payload with
    | none => exact slot
    | some payload => exact slot
  | .style step, _, scope, clock, proper, _ => by
    refine ⟨Scalar.atMost_self proper, ?_, step.pairwise_bookings _⟩
    intro booking booked
    rw [(StyleStep.mem_bookings booked).2]
    exact ⟨Scalar.atMost_self proper, Scalar.atMost_self proper⟩
  | .reference animation defaults, apart, scope, clock, proper, slots => by
    rw [Tree.bouts] at slots
    rw [Tree.clockAfter, Tree.agenda]
    exact timetable animation (List.forall_mem_cons.1 apart).2 _ clock proper slots
  | .animateRef animation defaults overrides, apart, scope, clock, proper, slots => by
    rw [Tree.bouts] at slots
    rw [Tree.clockAfter, Tree.agenda]
    exact timetable animation (List.forall_mem_cons.1 apart).2 _ clock proper slots
  | .trigger _ definitions, apart, scope, clock, proper, slots =>
    timetableSteps definitions (List.forall_mem_cons.1 apart).2 scope clock proper slots
  | .state .., _, _, _, proper, _ | .transition .., _, _, _, proper, _
  | .keyframes .., _, _, _, proper, _ | .query .., _, _, _, proper, _
  | .stagger .., _, _, _, proper, _ | .animateChild .., _, _, _, proper, _ => Timetable.nil proper

theorem Tree.timetableSteps : ∀ (steps : List (Tree ν)),
    (∀ node ∈ Tree.allNodes steps, node.BranchesApart) →
    ∀ (scope : Params ν) (clock : ν), (clock == clock) = true →
      (∀ bout ∈ Tree.boutsOfSteps scope steps clock, bout.InSlot) →
        Timetable clock (Tree.clockAfterSteps scope steps clock)
          (Tree.agendaSteps scope steps clock)
  | [], _, _, _, proper, _ => Timetable.nil proper
  | step :: rest, apart, scope, clock, proper, slots => by
    obtain ⟨here, others⟩ := Tree.forall_mem_allNodes_cons.1 apart
    obtain ⟨inside, behind⟩ := List.forall_mem_append.1 slots
    have first := timetable step here scope clock proper inside
    exact first.append (timetableSteps rest others scope _
      (Scalar.proper_of_atMost first.forward).2 behind)

theorem Tree.timetableBranches : ∀ (branches : List (Tree ν)),
    branches.Pairwise Tree.BookedApart →
    (∀ node ∈ Tree.allNodes branches, node.BranchesApart) →
    ∀ (scope : Params ν) (origin furthest : ν), Scalar.atMost origin furthest = true →
      (∀ bout ∈ Tree.boutsOfBranches scope branches origin, bout.InSlot) →
        Timetable origin (Tree.furthestClock scope origin branches furthest)
            (Tree.agendaBranches scope branches origin) ∧
          Scalar.atMost furthest (Tree.furthestClock scope origin branches furthest) = true
  | [], _, _, _, origin, furthest, ahead, _ =>
    ⟨⟨ahead, fun _ booked => absurd booked List.not_mem_nil, List.Pairwise.nil⟩,
      Scalar.atMost_self (Scalar.proper_of_atMost ahead).2⟩
  | branch :: rest, disjoint, apart, scope, origin, furthest, ahead, slots => by
    obtain ⟨separate, disjoint⟩ := List.pairwise_cons.1 disjoint
    obtain ⟨here, others⟩ := Tree.forall_mem_allNodes_cons.1 apart
    obtain ⟨inside, behind⟩ := List.forall_mem_append.1 slots
    have proper := Scalar.proper_of_atMost ahead
    have first := timetable branch here scope origin proper.1 inside
    have kept := Scalar.first_atMost_larger proper.2 (Tree.clockAfter scope branch origin)
    have reached := Scalar.second_atMost_larger furthest
      (Scalar.proper_of_atMost first.forward).2
    obtain ⟨table, further⟩ := timetableBranches rest disjoint others scope origin _
      (Scalar.atMost_trans ahead kept) behind
    refine ⟨(first.widen (Scalar.atMost_trans reached further)).beside table ?_,
      Scalar.atMost_trans kept further⟩
    intro booking booked beside bookedBeside same
    refine Tree.bookedApart_of_pairwise separate booking.property
      (branch.property_mem_of_agenda scope origin booked) ?_
    rw [same]
    exact Tree.property_mem_of_agendaBranches rest scope origin bookedBeside

end

end Walk

/-! ## What is reported -/

/-- No collision is found on a clock whose bookings of each property follow one another. -/
theorem ClockedTree.collisions_eq_nil [LawfulScalar ν] {clocked : ClockedTree ν}
    (ordered : (clocked.tree.agenda clocked.scope 0).Pairwise Booking.Precedes)
    (property : String) : clocked.collisions property = [] := by
  refine List.eq_nil_iff_forall_not_mem.2 fun problem found => ?_
  obtain ⟨earlier, window, later, split, first, _, last, closes, crossed, _⟩ :=
    Occupancy.collision_eq_span property _ found
  have following : (clocked.writes property).Pairwise
      fun earlier later => ¬later.start < earlier.stop := by
    refine List.pairwise_map.2 ((ordered.filter _).imp_of_mem ?_)
    intro before after member next precedes
    exact precedes ((beq_iff_eq.1 (List.mem_filter.1 member).2).trans
      (beq_iff_eq.1 (List.mem_filter.1 next).2).symm)
  rw [ClockedTree.writes, split] at following
  exact (List.pairwise_append.1 following).2.2 last closes window List.mem_cons_self
    (Window.overlaps_iff.1 crossed.1).2

/-- A clock of a tree without shared properties reports nothing when its steps keep to their
slots. -/
theorem Tree.collisions_eq_nil_of_inSlot [LawfulScalar ν] {tree : Tree ν} {scope : Params ν}
    (apart : ∀ node ∈ tree.nodes, node.BranchesApart) {clocked : ClockedTree ν}
    (member : clocked ∈ tree.clocks scope)
    (slots : ∀ bout ∈ clocked.tree.bouts clocked.scope 0, bout.InSlot) (property : String) :
    clocked.collisions property = [] := by
  have inside : ∀ node ∈ clocked.tree.nodes, node.BranchesApart := by
    intro node within
    rcases List.mem_cons.1 member with rfl | passed
    · exact apart node within
    · exact apart node (Tree.nodes_of_mem_transitions tree scope passed within)
  have table := clocked.tree.timetable inside clocked.scope 0 LawfulScalar.zero_proper slots
  exact ClockedTree.collisions_eq_nil table.ordered property

/-- No collision is reported for a tree when none is found on any of its clocks. -/
theorem Tree.uncollided_of_clocks {tree : Tree ν} {scope : Params ν}
    (silent : ∀ clocked ∈ tree.clocks scope, ∀ property, clocked.collisions property = []) :
    Uncollided (tree.validate scope) := by
  intro problem reported property
  by_contra collision
  obtain ⟨clocked, member, found⟩ :=
    (tree.mem_validate_iff scope (Bool.not_eq_false _ ▸ collision)).1 reported
  rw [silent clocked member] at found
  exact List.not_mem_nil found

/-! ## Exact numbers -/

/-- The keyframes of a list book nothing outside of their step. -/
theorem within_of_keyframeBookings {opening closing origin duration : Rat} {booking : Booking Rat} :
    ∀ (steps : List (StyleStep Rat × Rat)) (previous : Rat),
      (∀ step ∈ steps, origin + step.2 * duration ≤ closing) → opening ≤ previous →
        previous ≤ closing → booking ∈ keyframeBookings origin duration steps previous →
          booking.window.Within opening closing
  | [], _, _, _, _, booked => absurd booked List.not_mem_nil
  | (step, offset) :: rest, previous, bounded, begun, ended, booked => by
    obtain ⟨here, others⟩ := List.forall_mem_cons.1 bounded
    have reached : Scalar.larger (origin + offset * duration) previous ≤ closing := by
      rw [Scalar.larger_exact]
      exact max_le here ended
    rcases List.mem_append.1 booked with inside | later
    · rw [(StyleStep.mem_bookings inside).2]
      exact ⟨Scalar.atMost_exact.2 begun, Scalar.atMost_exact.2 reached⟩
    · refine within_of_keyframeBookings rest _ others ?_ reached later
      rw [Scalar.larger_exact]
      exact begun.trans (le_max_right _ _)

/-- With exact numbers every animated step keeps to its slot. -/
theorem Bout.inSlot (bout : Bout Rat) : bout.InSlot := by
  have timed : bout.timings.Nonnegative := bout.timing.nonnegative_resolve bout.scope
  have duration := timed.duration
  have delay := timed.delay
  have total : bout.finish = bout.clock + bout.timings.delay + bout.timings.duration := by
    rw [finish, Timings.total, add_comm bout.timings.duration, add_assoc]
  have forward : bout.clock ≤ bout.finish := le_add_of_nonneg_right (add_nonneg duration delay)
  refine ⟨Scalar.atMost_exact.2 forward, ?_⟩
  intro booking booked
  obtain ⟨scope, clock, timing, payload⟩ := bout
  cases payload with
  | none => exact absurd booked List.not_mem_nil
  | some payload =>
    cases payload with
    | style step =>
      rw [(StyleStep.mem_bookings booked).2]
      refine ⟨Scalar.atMost_exact.2 ?_, Scalar.atMost_exact.2 le_rfl⟩
      exact (add_sub_cancel_right _ _).ge
    | keyframes steps =>
      refine within_of_keyframeBookings _ _ ?_ ?_ ?_ booked
      · intro step member
        have unit := keyframeOffsets_mem_unit steps step.2 (List.of_mem_zip member).2
        have part := mul_le_of_le_one_left duration unit.2
        rw [total]
        exact add_le_add_right part _
      · exact le_add_of_nonneg_right delay
      · rw [total]
        exact le_add_of_nonneg_right duration

/-- With exact numbers, unshared properties are never reported. -/
theorem Tree.uncollided_of_exact {tree : Tree Rat} (scope : Params Rat)
    (apart : ∀ node ∈ tree.nodes, node.BranchesApart) : Uncollided (tree.validate scope) :=
  Tree.uncollided_of_clocks fun _ member =>
    Tree.collisions_eq_nil_of_inSlot apart member fun bout _ => bout.inSlot

/-! ## The general case -/

/-- **Unshared properties never collide.** If no group animates a property in two of its branches
and every animated step keeps to its slot on the clock that it is met on, then no collision is
reported, in whatever lawful numbers the clock runs. -/
theorem Tree.unshared_properties_never_collide [LawfulScalar ν] (tree : Tree ν) (scope : Params ν)
    (apart : ∀ node ∈ tree.nodes, node.BranchesApart)
    (slots : ∀ clocked ∈ tree.clocks scope, ∀ bout ∈ clocked.tree.bouts clocked.scope 0,
      bout.InSlot) :
    Uncollided (tree.validate scope) :=
  Tree.uncollided_of_clocks fun clocked member =>
    Tree.collisions_eq_nil_of_inSlot apart member (slots clocked member)

/-- A card that turns while it is moved through a keyframe list, beside a color that changes in two
steps, and then fades at once. -/
def turningCard {ν : Type} [Scalar ν] (time : ν) : Tree ν :=
  .sequence
    [.group
      [.sequence
        [.animateTo (.millis time) (.ofEntries [("transform", .text "turn")]),
          .animateThrough (.resolved ⟨time, time, none⟩)
            [.ofEntries [("left", .number 0)], .ofEntries [("left", .number time)]]],
      .sequence
        [.animateTo (.millis time) (.ofEntries [("color", .text "red")]),
          .animateTo (.resolved ⟨time, time, none⟩) (.ofEntries [("color", .text "blue")])]],
    .style (.ofEntries [("color", .text "green"), ("left", .number 0)])]

theorem turningCard_never_collides :
    Uncollided ((turningCard (1001 / 10 : Rat)).validate ∅) ∧
    Uncollided ((turningCard (Binary64.ofNat 100)).validate ∅) :=
  ⟨Tree.unshared_properties_never_collide _ ∅ (by decide +kernel) fun _ _ bout _ => bout.inSlot,
    Tree.unshared_properties_never_collide _ ∅ (by decide +kernel) (by decide +kernel)⟩

/-- A number of tenths of a millisecond. -/
def tenths (count : Nat) : Timing Binary64 :=
  .millis (Binary64.ofNumeral (.finite false count (-1)))

/-- Two steps in a row, of 100.1 and 200.2 milliseconds. -/
def fractionalSteps : Tree Binary64 :=
  .sequence [.animateTo (tenths 1001) (.ofEntries [("color", .text "red")]),
    .animateTo (tenths 2002) (.ofEntries [("color", .text "blue")])]

/-- A tree without a group, whose second step is reported as parallel to the first. -/
theorem fractionalSteps_are_reported :
    (∀ node ∈ fractionalSteps.nodes, node.BranchesApart ∧ node.kind ≠ .group) ∧
    (∃ problem ∈ fractionalSteps.validate ∅, problem.collidesOn "color" = true) := by
  decide +kernel

end Storyboard
