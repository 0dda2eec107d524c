import Storyboard.Proofs.Compilation.Slots

/-!
# The visits of a compilation

The visit of a tree consists of visits to the nodes inside of it. `Traversal.trace` keeps each of
them with the walk on entry and on exit: the steps of a sequence one after the other, the branches
of a group each on a fork of its own, the payload of an animated step once the walk has reached
it, and the animation behind a reference in the scope that the reference gives it.

Every one of these visits stays in its slot of time (`Tree.compile_in_slots`): the clock does not go
back, timelines are opened and keyframes added between the clock on entry and the clock on exit,
and the slots of the branches of a group begin where that of the group begins and fill it, the
longest of them to the end.
-/

set_option autoImplicit false

namespace Storyboard

/-! ## Visits inside of visits -/

/-- The visit of a node, with the walk before and after it and the visits that it consists of. A
payload counts as a node of its own. -/
structure Visit (ν : Type) where
  node : Tree ν
  entry : Traversal ν
  exit : Traversal ν
  inner : List (Visit ν)

variable {ν : Type}

mutual

/-- The visit and all visits inside of it. -/
def Visit.all : Visit ν → List (Visit ν)
  | ⟨node, entry, exit, inner⟩ => ⟨node, entry, exit, inner⟩ :: Visit.allOf inner

/-- Several visits and all visits inside of them. -/
def Visit.allOf : List (Visit ν) → List (Visit ν)
  | [] => []
  | visit :: rest => visit.all ++ Visit.allOf rest

end

theorem Visit.all_eq (visit : Visit ν) : visit.all = visit :: allOf visit.inner := by
  cases visit
  rfl

namespace Traversal

variable [Scalar ν]

/-- The visit of the payload of an animated step. -/
def payloadVisits (scope : Params ν) (timing : Timing ν) (payload : Option (Payload ν))
    (walk : Traversal ν) : List (Visit ν) :=
  let timings := (timing.resolve scope).1
  let waited := walk.awaitPayload scope timing
  match payload with
  | some (.keyframes steps) =>
    [⟨.keyframes steps, waited, waited.runKeyframes scope steps timings, []⟩]
  | some (.style step) =>
    let reached := waited.pass timings.duration
    [⟨.style step, reached, reached.writeStyle scope step timings.easing, []⟩]
  | none => []

mutual

/-- The visits that the visit of a tree consists of, in order. -/
def innerVisits (settings : Settings ν) (scope : Params ν) :
    Tree ν → Traversal ν → List (Visit ν)
  | .sequence steps, walk => stepVisits settings scope steps (walk.enterSequence settings)
  | .group branches, walk => branchVisits settings scope walk branches walk
  | .animate timing payload, walk => walk.payloadVisits scope timing payload
  | .reference animation defaults, walk =>
    let inside := referenceScope defaults scope
    [⟨animation, walk, visit settings inside animation walk,
      innerVisits settings inside animation walk⟩]
  | .animateRef animation defaults overrides, walk =>
    let inside := invocationScope defaults scope overrides
    [⟨animation, walk, visit settings inside animation walk,
      innerVisits settings inside animation walk⟩]
  | _, _ => []

/-- The visits of steps, one after the other. -/
def stepVisits (settings : Settings ν) (scope : Params ν) :
    List (Tree ν) → Traversal ν → List (Visit ν)
  | [], _ => []
  | step :: rest, walk =>
    let exit := visit settings scope step walk
    ⟨step, walk, exit, innerVisits settings scope step walk⟩ ::
      stepVisits settings scope rest exit

/-- The visits of the branches of a group, each on a fork of the timeline on which it was
entered. -/
def branchVisits (settings : Settings ν) (scope : Params ν) (entry : Traversal ν) :
    List (Tree ν) → Traversal ν → List (Visit ν)
  | [], _ => []
  | branch :: rest, walk =>
    let forked := entry.enterBranch walk
    let exit := visit settings scope branch forked
    ⟨branch, forked, exit, innerVisits settings scope branch forked⟩ ::
      branchVisits settings scope entry rest exit

end

/-- The visit of a tree. -/
def trace (settings : Settings ν) (scope : Params ν) (tree : Tree ν) (walk : Traversal ν) :
    Visit ν :=
  ⟨tree, walk, visit settings scope tree walk, innerVisits settings scope tree walk⟩

/-- Every branch is visited, in order. -/
theorem map_node_branchVisits (settings : Settings ν) (scope : Params ν) (entry : Traversal ν) :
    ∀ (branches : List (Tree ν)) (walk : Traversal ν),
      (branchVisits settings scope entry branches walk).map Visit.node = branches
  | [], _ => rfl
  | branch :: rest, walk => by
    rw [branchVisits, List.map_cons, map_node_branchVisits settings scope entry rest]

end Traversal

/-! ## Slots -/

/-- The branches of a group begin at its clock and end before its own end or with it; the group
ends with one of them, or at once. -/
structure Visit.Filled (visit : Visit Rat) (branches : List (Tree Rat)) : Prop where
  nodes : visit.inner.map Visit.node = branches
  inside : ∀ child ∈ visit.inner,
    child.entry.now = visit.entry.now ∧ child.exit.now ≤ visit.exit.now
  reached : visit.exit.now = visit.entry.now ∨
    ∃ child ∈ visit.inner, child.exit.now = visit.exit.now

/-- A visit stays in the slot between its two clocks. -/
structure Visit.InSlot (visit : Visit Rat) : Prop where
  later : visit.entry.now ≤ visit.exit.now
  /-- Timelines that were opened have all their keyframes in the slot. -/
  opened : ∀ id, visit.entry.stage.size ≤ id → id < visit.exit.stage.size →
    (visit.exit.stage.skeleton id).Within visit.entry.now visit.exit.now
  /-- Keyframes that were added to the timeline on which the visit began lie in the slot. -/
  prolonged : (visit.entry.stage.skeleton visit.entry.current).Prolonged visit.entry.now
    visit.exit.now (visit.exit.stage.skeleton visit.entry.current)
  filled : ∀ branches, visit.node = .group branches → visit.Filled branches

namespace Traversal

variable {settings : Settings Rat}

/-- What a slot says of a visit that is not that of a group. -/
theorem Slot.inSlot {visit : Visit Rat} (slot : Slot visit.entry visit.exit)
    (single : ∀ branches, visit.node ≠ .group branches) : visit.InSlot :=
  ⟨slot.later, slot.opened, slot.prolonged, fun branches group => absurd group (single branches)⟩

/-- The branches of a group that is under way begin at its entry, and it ends with the furthest
of them. -/
theorem clock_visitBranches (frame : 0 ≤ settings.frameLength) (scope : Params Rat) :
    ∀ (branches : List (Tree Rat)) {entry walk : Traversal Rat} {furthest : Rat} (ends : List Nat),
      Underway entry furthest walk.stage →
        furthest ≤ (visitBranches settings scope entry branches ends furthest walk).now ∧
        (∀ child ∈ branchVisits settings scope entry branches walk, child.entry.now = entry.now ∧
          child.exit.now ≤ (visitBranches settings scope entry branches ends furthest walk).now) ∧
        ((visitBranches settings scope entry branches ends furthest walk).now = furthest ∨
          ∃ child ∈ branchVisits settings scope entry branches walk, child.exit.now =
            (visitBranches settings scope entry branches ends furthest walk).now)
  | [], _, _, furthest, ends, underway => by
    obtain ⟨_, left⟩ := underway.leaveGroup ends
    exact ⟨left.ge, fun _ member => absurd member List.not_mem_nil, .inl left⟩
  | branch :: rest, entry, walk, furthest, ends, underway => by
    obtain ⟨forked, begins⟩ := underway.leads_enterBranch
    have visited := slot_visit frame branch scope forked
    obtain ⟨further, others, reached⟩ := clock_visitBranches frame scope rest
      (ends ++ [(visit settings scope branch (entry.enterBranch walk)).current])
      (underway.visitBranch visited)
    have larger := Scalar.larger_exact furthest
      (visit settings scope branch (entry.enterBranch walk)).now
    rw [visitBranches_cons, branchVisits]
    refine ⟨?_, ?_, ?_⟩
    · exact (le_max_left _ _).trans (larger.ge.trans further)
    · intro child member
      rcases List.mem_cons.1 member with first | later
      · rw [first]
        exact ⟨begins, (le_max_right _ _).trans (larger.ge.trans further)⟩
      · exact others child later
    · rcases reached with last | ⟨child, later, same⟩
      · rw [last, larger]
        rcases max_choice furthest (visit settings scope branch (entry.enterBranch walk)).now with
          earlier | here
        · exact .inl earlier
        · exact .inr ⟨_, List.mem_cons_self, here.symm⟩
      · exact .inr ⟨child, List.mem_cons_of_mem _ later, same⟩

/-- The visit of a tree stays in its slot. -/
theorem inSlot_trace (frame : 0 ≤ settings.frameLength) (scope : Params Rat) (tree : Tree Rat)
    {walk : Traversal Rat} (leads : walk.Leads) : (trace settings scope tree walk).InSlot := by
  have slot := slot_visit frame tree scope leads
  refine ⟨slot.later, slot.opened, slot.prolonged, fun branches group => ?_⟩
  have group : tree = .group branches := group
  subst group
  obtain ⟨_, inside, reached⟩ := clock_visitBranches frame scope branches [] (.refl leads)
  exact ⟨map_node_branchVisits settings scope walk branches walk, inside, reached⟩

/-- The visit of a payload stays in its slot. -/
theorem inSlot_payloadVisits (frame : 0 ≤ settings.frameLength) (scope : Params Rat)
    (timing : Timing Rat) (payload : Option (Payload Rat)) {walk : Traversal Rat}
    (leads : walk.Leads) :
    ∀ visit ∈ Visit.allOf (walk.payloadVisits scope timing payload), visit.InSlot := by
  have waited := slot_awaitPayload leads scope timing
  match payload with
  | none => exact fun visit member => absurd member List.not_mem_nil
  | some (.keyframes steps) =>
    intro visit member
    rw [List.mem_singleton.1 member]
    refine Slot.inSlot (slot_runKeyframes frame waited.leads scope steps timing).1 ?_
    exact fun branches group => nomatch group
  | some (.style step) =>
    intro visit member
    rw [List.mem_singleton.1 member]
    have reached := slot_pass waited.leads (timing.nonnegative_resolve scope).duration
    refine Slot.inSlot (slot_writeStyle reached.leads scope step _) ?_
    exact fun branches group => nomatch group

mutual

/-- All visits inside of the visit of a tree stay in their slots. -/
theorem inSlot_innerVisits (frame : 0 ≤ settings.frameLength) :
    ∀ (tree : Tree Rat) (scope : Params Rat) {walk : Traversal Rat}, walk.Leads →
      ∀ visit ∈ Visit.allOf (innerVisits settings scope tree walk), visit.InSlot
  | .sequence steps, scope, _, leads =>
    inSlot_stepVisits frame steps scope (slot_enterSequence frame leads).leads
  | .group branches, scope, _, leads => inSlot_branchVisits frame branches scope (.refl leads)
  | .animate timing payload, scope, _, leads =>
    inSlot_payloadVisits frame scope timing payload leads
  | .reference animation defaults, scope, walk, leads => by
    have inside := inSlot_innerVisits frame animation (referenceScope defaults scope) leads
    simp only [innerVisits, Visit.allOf, Visit.all, List.append_nil]
    exact List.forall_mem_cons.2 ⟨inSlot_trace frame _ animation leads, inside⟩
  | .animateRef animation defaults overrides, scope, walk, leads => by
    have inside := inSlot_innerVisits frame animation
      (invocationScope defaults scope overrides) leads
    simp only [innerVisits, Visit.allOf, Visit.all, List.append_nil]
    exact List.forall_mem_cons.2 ⟨inSlot_trace frame _ animation leads, inside⟩
  | .style .., _, _, _ => fun _ member => absurd member List.not_mem_nil
  | .state .., _, _, _ => fun _ member => absurd member List.not_mem_nil
  | .transition .., _, _, _ => fun _ member => absurd member List.not_mem_nil
  | .keyframes .., _, _, _ => fun _ member => absurd member List.not_mem_nil
  | .trigger .., _, _, _ => fun _ member => absurd member List.not_mem_nil
  | .animateChild .., _, _, _ => fun _ member => absurd member List.not_mem_nil
  | .query .., _, _, _ => fun _ member => absurd member List.not_mem_nil
  | .stagger .., _, _, _ => fun _ member => absurd member List.not_mem_nil

theorem inSlot_stepVisits (frame : 0 ≤ settings.frameLength) :
    ∀ (steps : List (Tree Rat)) (scope : Params Rat) {walk : Traversal Rat}, walk.Leads →
      ∀ visit ∈ Visit.allOf (stepVisits settings scope steps walk), visit.InSlot
  | [], _, _, _ => fun _ member => absurd member List.not_mem_nil
  | step :: rest, scope, walk, leads => by
    have first := List.forall_mem_cons.2
      ⟨inSlot_trace frame scope step leads, inSlot_innerVisits frame step scope leads⟩
    have others := inSlot_stepVisits frame rest scope (slot_visit frame step scope leads).leads
    exact List.forall_mem_append.2 ⟨first, others⟩

theorem inSlot_branchVisits (frame : 0 ≤ settings.frameLength) :
    ∀ (branches : List (Tree Rat)) (scope : Params Rat) {entry walk : Traversal Rat}
      {furthest : Rat}, Underway entry furthest walk.stage →
        ∀ visit ∈ Visit.allOf (branchVisits settings scope entry branches walk), visit.InSlot
  | [], _, _, _, _, _ => fun _ member => absurd member List.not_mem_nil
  | branch :: rest, scope, entry, walk, _, underway => by
    have forked := underway.leads_enterBranch.1
    have first := List.forall_mem_cons.2
      ⟨inSlot_trace frame scope branch forked, inSlot_innerVisits frame branch scope forked⟩
    have others := inSlot_branchVisits frame rest scope
      (underway.visitBranch (slot_visit frame branch scope forked))
    exact List.forall_mem_append.2 ⟨first, others⟩

end

end Traversal

/-- **Every node stays in its slot.** Whatever the tree, each visit of a compilation moves the clock
on or leaves it, opens timelines and adds keyframes only between its entry and its exit, and the
branches of every group fill its slot. -/
theorem Tree.compile_in_slots (tree : Tree Rat) (settings : Settings Rat) (starting : Styles Rat)
    (scope : Params Rat) (frame : 0 ≤ settings.frameLength) :
    ∀ visit ∈ (Traversal.trace settings scope tree (.start starting)).all, visit.InSlot := by
  obtain ⟨leads, _⟩ := Traversal.leads_start starting
  rw [Visit.all_eq]
  exact List.forall_mem_cons.2 ⟨Traversal.inSlot_trace frame scope tree leads,
    Traversal.inSlot_innerVisits frame tree scope leads⟩

/-- A keyframe list that goes back, beside a sequence whose last step follows a group. -/
def swayBesideFade : Tree Rat :=
  .group
    [.animateThrough (.millis 100) [.ofEntries [("offset", .number (3 / 4)), ("left", .text "9px")],
      .ofEntries [("offset", .number (1 / 4)), ("left", .text "2px")]],
    .sequence
      [.group [.animateTo (.millis 50) (.ofEntries [("opacity", .number 0)]), .group []],
      .animateTo (.millis 80) (.ofEntries [("opacity", .number 1)])]]

theorem in_slots_of_swayBesideFade :
    0 ≤ (Settings.standard : Settings Rat).frameLength ∧
      (Traversal.trace Settings.standard ∅ swayBesideFade (.start ∅)).all.length = 10 ∧
        (Traversal.trace Settings.standard ∅ swayBesideFade (.start ∅)).exit.now = 130 ∧
          ∀ visit ∈ (Traversal.trace Settings.standard ∅ swayBesideFade (.start ∅)).all,
            visit.InSlot :=
  ⟨by decide, by decide +kernel, by decide +kernel,
    Tree.compile_in_slots swayBesideFade Settings.standard ∅ ∅ (by decide)⟩

end Storyboard
