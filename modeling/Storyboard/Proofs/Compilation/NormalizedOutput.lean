import Storyboard.Proofs.Compilation.Emitted
import Storyboard.Proofs.Compilation.Steps
import Storyboard.Proofs.Timeline.Emission
import Storyboard.Proofs.Timing.Resolution

/-!
# Compilation emits normalized instructions

Whatever the tree, a walk changes its stage only by moving cursors, taking snapshots, setting the
easing of a span, writing at a cursor, forking, and folding one timeline into another. A property
of stages that each of these operations keeps is therefore kept by the visit of any tree
(`Traversal.visit_invariant`), and the induction over trees is done here once. A fork may be told
when to start. The second predicate of `Stage.Invariant` describes the times that can occur there:
the cursor of some timeline, such a time moved on by the duration of a step, and the larger of two
such times.

Well-timedness of the stage is an invariant of every walk whose frames do not run backwards
(`Stage.wellTimed_invariant`): cursors only move to times from zero on, because durations, delays
and keyframe offsets are never negative, and timelines only start at times that a cursor has
reached. Whatever timelines are left in the end are therefore emitted as normalized instructions
(`Tree.compile_normalized`), for every tree, valid or not.
-/

set_option autoImplicit false

namespace Storyboard

/-! ## Invariants of the walk -/

variable {ν : Type} [Scalar ν]

/-- Every operation of a walk keeps a property of stages, provided that forks start at admissible
times. -/
structure Stage.Invariant (settings : Settings ν) (holds : Stage ν → Prop)
    (admissible : ν → Prop) : Prop where
  forwardTo : ∀ stage id (time : Timeline ν → ν), holds stage →
    holds (stage.modify id fun timeline => timeline.forwardTo (time timeline))
  forwardFrame : ∀ stage id, holds stage →
    holds (stage.modify id fun timeline => timeline.forwardFrame settings.frameLength)
  snapshot : ∀ stage id, holds stage → holds (stage.modify id Timeline.snapshot)
  ease : ∀ stage id easing, holds stage →
    holds (stage.modify id fun timeline => { timeline with easing := easing })
  write : ∀ stage id styles easing, holds stage → holds (stage.write id styles easing)
  writeEmptyStep : ∀ stage id easing, holds stage → holds (stage.writeEmptyStep id easing)
  absorb : ∀ stage target source, holds stage → holds (stage.absorb target source)
  fork : ∀ stage parent start inherits, (∀ time, start = some time → admissible time) →
    holds stage → holds (stage.fork parent start inherits)
  now : ∀ stage id, holds stage → admissible (stage.now id)
  later : ∀ time (timing : Timing ν) scope, admissible time →
    admissible (time + (timing.resolve scope).1.duration)
  larger : ∀ first second, admissible first → admissible second →
    admissible (Scalar.larger first second)

namespace Traversal

variable {settings : Settings ν} {holds : Stage ν → Prop} {admissible : ν → Prop}

section Operations

variable (invariant : Stage.Invariant settings holds admissible)
include invariant

theorem pass_invariant {walk : Traversal ν} (before : holds walk.stage) (time : ν) :
    holds (walk.pass time).stage :=
  invariant.forwardTo _ _ _ before

theorem writeStyle_invariant (scope : Params ν) (step : StyleStep ν) (easing : Option String)
    {walk : Traversal ν} (before : holds walk.stage) :
    holds (walk.writeStyle scope step easing).stage :=
  invariant.write _ _ _ _ before

theorem writeBareStyle_invariant (scope : Params ν) (step : StyleStep ν) {walk : Traversal ν}
    (before : holds walk.stage) : holds (walk.writeBareStyle settings scope step).stage := by
  apply writeStyle_invariant invariant
  split
  · exact invariant.forwardFrame _ _ before
  · exact before

theorem enterSequence_invariant {walk : Traversal ν} (before : holds walk.stage) :
    holds (walk.enterSequence settings).stage := by
  unfold enterSequence
  split
  · have moved := invariant.snapshot _ walk.current (invariant.forwardFrame _ walk.current before)
    rwa [Stage.modify_modify] at moved
  · exact before

theorem branch_invariant {walk : Traversal ν} (before : holds walk.stage) :
    holds walk.branch.stage :=
  invariant.fork _ _ none true (fun _ none => nomatch none) before

theorem continueAt_invariant {walk : Traversal ν} (before : holds walk.stage) {time : Option ν}
    (allowed : ∀ start, time = some start → admissible start) :
    holds (walk.continueAt time).stage :=
  invariant.fork _ _ time false allowed before

theorem writeKeyframes_invariant (scope : Params ν) (duration : ν) :
    ∀ (steps : List (StyleStep ν × ν)) {walk : Traversal ν}, holds walk.stage →
      holds (writeKeyframes scope duration steps walk).stage
  | [], _, before => before
  | (_, _) :: rest, _, before =>
    writeKeyframes_invariant scope duration rest
      (writeStyle_invariant invariant _ _ _ (invariant.forwardTo _ _ _ before))

theorem runKeyframes_invariant (scope : Params ν) (steps : List (StyleStep ν)) (timing : Timing ν)
    {walk : Traversal ν} (before : holds walk.stage) :
    holds (walk.runKeyframes scope steps (timing.resolve scope).1).stage := by
  apply continueAt_invariant invariant
  · apply invariant.absorb
    apply writeKeyframes_invariant invariant
    exact invariant.ease _ _ _ (branch_invariant invariant before)
  · intro start same
    cases same
    exact invariant.later _ timing scope (invariant.now _ walk.current before)

theorem awaitPayload_invariant (scope : Params ν) (timing : Timing ν) {walk : Traversal ν}
    (before : holds walk.stage) : holds (walk.awaitPayload scope timing).stage := by
  unfold awaitPayload wait
  split
  · exact invariant.snapshot _ _ (pass_invariant invariant before _)
  · exact before

theorem runAnimate_invariant (scope : Params ν) (timing : Timing ν) (payload : Option (Payload ν))
    {walk : Traversal ν} (before : holds walk.stage) :
    holds (walk.runAnimate scope timing payload).stage := by
  have waited := awaitPayload_invariant invariant scope timing before
  cases payload with
  | none =>
    rw [runAnimate_empty]
    exact invariant.writeEmptyStep _ _ _ (pass_invariant invariant waited _)
  | some payload =>
    cases payload with
    | keyframes steps =>
      rw [runAnimate_keyframes]
      exact runKeyframes_invariant invariant scope steps timing waited
    | style step =>
      rw [runAnimate_style]
      exact writeStyle_invariant invariant _ _ _ (pass_invariant invariant waited _)

theorem leaveGroup_invariant (entry : Traversal ν) (branches : List Nat) {furthest : ν}
    (allowed : admissible furthest) {walk : Traversal ν} (before : holds walk.stage) :
    holds (leaveGroup entry branches furthest walk).stage := by
  apply continueAt_invariant invariant
  · refine List.foldlRecOn branches _ before ?_
    intro absorbed kept source _
    exact invariant.absorb absorbed entry.current source kept
  · intro start same
    cases same
    exact allowed

end Operations

mutual

/-- **What every operation of a walk keeps, the visit of a tree keeps.** -/
theorem visit_invariant (invariant : Stage.Invariant settings holds admissible) :
    ∀ (tree : Tree ν) (scope : Params ν) {walk : Traversal ν}, holds walk.stage →
      holds (visit settings scope tree walk).stage
  | .sequence steps, scope, walk, before => by
    have visited := visitSteps_invariant invariant steps scope
      (enterSequence_invariant invariant before)
    simp only [visit, after]
    split
    · exact continueAt_invariant invariant visited fun _ none => nomatch none
    · exact visited
  | .group branches, scope, walk, before => by
    simp only [visit, after]
    exact visitBranches_invariant invariant branches scope walk [] (invariant.now _ _ before)
      before
  | .animate timing payload, scope, walk, before =>
    runAnimate_invariant invariant scope timing payload before
  | .style step, scope, walk, before => writeBareStyle_invariant invariant scope step before
  | .reference animation defaults, scope, walk, before => by
    simp only [visit, after]
    exact visit_invariant invariant animation _ before
  | .animateRef animation defaults overrides, scope, walk, before => by
    simp only [visit, after]
    exact visit_invariant invariant animation _ before
  | .state .., _, _, before => before
  | .transition .., _, _, before => before
  | .keyframes .., _, _, before => before
  | .trigger .., _, _, before => before
  | .animateChild .., _, _, before => before
  | .query .., _, _, before => before
  | .stagger .., _, _, before => before

theorem visitSteps_invariant (invariant : Stage.Invariant settings holds admissible) :
    ∀ (steps : List (Tree ν)) (scope : Params ν) {walk : Traversal ν}, holds walk.stage →
      holds (visitSteps settings scope steps walk).stage
  | [], _, _, before => before
  | step :: rest, scope, walk, before => by
    simp only [visitSteps]
    exact visitSteps_invariant invariant rest scope (visit_invariant invariant step scope before)

theorem visitBranches_invariant (invariant : Stage.Invariant settings holds admissible) :
    ∀ (branches : List (Tree ν)) (scope : Params ν) (entry : Traversal ν) (ends : List Nat)
      {furthest : ν} {walk : Traversal ν}, admissible furthest → holds walk.stage →
        holds (visitBranches settings scope entry branches ends furthest walk).stage
  | [], _, entry, ends, _, _, allowed, before =>
    leaveGroup_invariant invariant entry ends allowed before
  | branch :: rest, scope, entry, ends, furthest, walk, allowed, before => by
    simp only [visitBranches]
    have forked : holds ({ walk with
        current := entry.current, previous := entry.previous } : Traversal ν).branch.stage :=
      branch_invariant invariant before
    have visited := visit_invariant invariant branch scope forked
    exact visitBranches_invariant invariant rest scope entry _
      (invariant.larger _ _ allowed (invariant.now _ _ visited)) visited

end

end Traversal

/-! ## Well-timed stages -/

/-- **Every operation of a walk keeps a stage well-timed.** -/
theorem Stage.wellTimed_invariant {settings : Settings Rat} (frame : 0 ≤ settings.frameLength) :
    Stage.Invariant settings Stage.WellTimed (0 ≤ ·) where
  forwardTo _ id time timed :=
    timed.modify id fun timeline before => Timeline.wellTimed_forwardTo before (time timeline)
  forwardFrame _ id timed :=
    timed.modify id fun _ before => Timeline.wellTimed_forwardFrame before frame
  snapshot _ id timed := timed.modify id fun timeline before => by
    rwa [Timeline.skeleton_snapshot]
  ease _ id _ timed := timed.modify id fun _ before => before
  write stage id styles easing timed := by rwa [WellTimed, skeletons_write]
  writeEmptyStep stage id easing timed := by rwa [WellTimed, skeletons_writeEmptyStep]
  absorb stage target source timed := by rwa [WellTimed, skeletons_absorb]
  fork _ parent _ inherits nonneg timed := timed.fork parent nonneg inherits
  now _ id timed := timed.now_nonneg id
  later _ timing scope nonneg := add_nonneg nonneg (timing.nonnegative_resolve scope).duration
  larger first second nonneg _ := by
    rw [Scalar.larger_exact]
    exact le_max_of_le_left nonneg

/-- The stage on which a walk starts is well-timed. -/
theorem Traversal.wellTimed_start (starting : Styles Rat) :
    (Traversal.start starting).stage.WellTimed := by
  have created : (Stage.empty.create (0 : Rat)).WellTimed := by
    refine Stage.WellTimed.push (fun _ none => absurd none List.not_mem_nil) ?_
    exact Timeline.wellTimed_blank (le_refl 0) ∅
  rwa [start, Stage.WellTimed, Stage.skeletons_write]

theorem Traversal.wellTimed_land {walk : Traversal Rat} (timed : walk.stage.WellTimed)
    (destination : Styles Rat) : (walk.land destination).WellTimed := by
  rwa [Stage.WellTimed, skeletons_land]

/-- The stage that a compilation emits is well-timed. -/
theorem Tree.wellTimed_landedStage (tree : Tree Rat) {settings : Settings Rat}
    (frame : 0 ≤ settings.frameLength) (starting destination : Styles Rat) (scope : Params Rat) :
    (tree.landedStage settings starting destination scope).WellTimed := by
  have walked := Traversal.visit_invariant (Stage.wellTimed_invariant frame) tree scope
    (Traversal.wellTimed_start starting)
  exact Traversal.wellTimed_land walked destination

/-- **Compilation emits normalized instructions**, or the one in which nothing happens. -/
theorem Tree.compile_normalized (tree : Tree Rat) (settings : Settings Rat)
    (starting destination : Styles Rat) (scope : Params Rat)
    (frame : 0 ≤ settings.frameLength) :
    ∀ instruction ∈ (tree.compile settings starting destination scope).1,
      instruction = Instruction.noop ∨ instruction.Normalized := by
  intro instruction member
  have timed := tree.wellTimed_landedStage frame starting destination scope
  rcases tree.timeline_of_instruction member with noop | ⟨id, _, _, rfl⟩
  · exact .inl noop
  · exact .inr (Timeline.normalized_instruction (timed.timeline id))

/-- Two keyframes in falling order beside a step that takes no time. -/
def fallingAndInstant : Tree Rat :=
  .group
    [.animateThrough (.millis 100)
      [.ofEntries [("offset", .number 1), ("opacity", .number 1)],
        .ofEntries [("offset", .number 0), ("opacity", .number 0)]],
    .animateTo (.millis 0) (.ofEntries [("color", .text "red")])]

theorem compile_normalized_fallingAndInstant :
    0 ≤ (Settings.standard : Settings Rat).frameLength ∧
      ((fallingAndInstant.compile Settings.standard ∅ (.ofList [("color", .text "blue")]) ∅).1.map
        Instruction.duration = [100, 0]) ∧
      ∀ instruction ∈ (fallingAndInstant.compile Settings.standard ∅
          (.ofList [("color", .text "blue")]) ∅).1,
        instruction = Instruction.noop ∨ instruction.Normalized :=
  ⟨by decide, by decide +kernel,
    fallingAndInstant.compile_normalized Settings.standard ∅ _ ∅ (by decide)⟩

end Storyboard
