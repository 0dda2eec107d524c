import Storyboard.Proofs.Compilation.Ledger
import Storyboard.Proofs.Timeline.Scaling
import Storyboard.Proofs.Validation.Scaling

/-!
# Compiling a scaled tree

An animation whose timings, together with the length of a frame, are all multiplied by one positive
factor is the same animation on another clock. Each operation of the walk, told the scaled times,
does to the scaled walk what it does to the walk, and by induction on the tree so does a visit
(`Traversal.visit_scale`). No time in the walk is fixed: what is neither zero nor an offset comes
from the tree or from the settings.

So compiling the scaled tree gives the same instructions with their durations and delays
multiplied, keyframe for keyframe the same, and the same problems; and validating it finds the
same collisions (`Tree.scale_animation`).
-/

set_option autoImplicit false

namespace Storyboard

variable {factor : Rat}

/-- The settings with the length of a frame multiplied. -/
def Settings.scale (factor : Rat) (settings : Settings Rat) : Settings Rat :=
  ⟨factor * settings.frameLength⟩

/-- The walk on the scaled stage. -/
def Traversal.scale (factor : Rat) (walk : Traversal Rat) : Traversal Rat :=
  { walk with stage := walk.stage.scale factor }

namespace Traversal

/-! ## Operations -/

section Operations

variable (factor) (walk : Traversal Rat)

theorem modifyCurrent_scale {change scaled : Timeline Rat → Timeline Rat}
    (commutes : ∀ timeline, scaled (timeline.scale factor) = (change timeline).scale factor) :
    (walk.scale factor).modifyCurrent scaled = (walk.modifyCurrent change).scale factor := by
  simp only [modifyCurrent, scale]
  rw [walk.stage.modify_scale factor walk.current commutes]

theorem now_scale : (walk.scale factor).now = factor * walk.now :=
  walk.stage.now_scale factor walk.current

theorem continueAt_scale (time : Option Rat) :
    (walk.scale factor).continueAt (time.map (factor * ·)) =
      (walk.continueAt time).scale factor := by
  simp only [continueAt, scale, Stage.fork_scale, Stage.size_scale]

theorem branch_scale : (walk.scale factor).branch = walk.branch.scale factor := by
  have forked := walk.stage.fork_scale factor walk.current none true
  simp only [branch, scale, Stage.size_scale]
  rw [← forked]
  rfl

theorem enterBranch_scale (entry : Traversal Rat) :
    (entry.scale factor).enterBranch (walk.scale factor) =
      (entry.enterBranch walk).scale factor :=
  branch_scale factor { walk with current := entry.current, previous := entry.previous }

theorem writeStyle_scale (scope : Params Rat) (step : StyleStep Rat) (easing : Option String) :
    (walk.scale factor).writeStyle scope step easing =
      (walk.writeStyle scope step easing).scale factor := by
  simp only [writeStyle, report, scale, Stage.write_scale]

variable {factor} (positive : 0 < factor)

include positive

theorem pass_scale (time : Rat) :
    (walk.scale factor).pass (factor * time) = (walk.pass time).scale factor := by
  refine walk.modifyCurrent_scale factor fun timeline => ?_
  have reached : (timeline.scale factor).cursor + factor * time =
      factor * (timeline.cursor + time) := (mul_add factor timeline.cursor time).symm
  rw [reached, timeline.forwardTo_scale positive]

theorem wait_scale (delay : Rat) :
    (walk.scale factor).wait (factor * delay) = (walk.wait delay).scale factor := by
  have lasts : 0 < factor * delay ↔ 0 < delay := mul_pos_iff_of_pos_left positive
  simp only [wait, lasts, walk.pass_scale positive]
  split
  · exact modifyCurrent_scale factor _ fun timeline => timeline.snapshot_scale factor
  · rfl

theorem awaitPayload_scale (scope : Params Rat) {timing : Timing Rat}
    (numbers : timing.InNumbers) :
    (walk.scale factor).awaitPayload scope (timing.scale factor) =
      (walk.awaitPayload scope timing).scale factor := by
  simp only [awaitPayload, Timing.resolve_scale positive scope numbers]
  exact wait_scale (walk.report (timing.resolve scope).2) positive _

theorem writeBareStyle_scale (settings : Settings Rat) (scope : Params Rat)
    (step : StyleStep Rat) :
    (walk.scale factor).writeBareStyle (settings.scale factor) scope step =
      (walk.writeBareStyle settings scope step).scale factor := by
  have previous : (walk.scale factor).previous = walk.previous := rfl
  simp only [writeBareStyle, previous]
  split
  · rw [modifyCurrent_scale factor walk fun timeline =>
      timeline.forwardFrame_scale positive settings.frameLength, writeStyle_scale]
  · exact walk.writeStyle_scale factor scope step none

theorem writeKeyframes_scale (scope : Params Rat) (duration : Rat) :
    ∀ (steps : List (StyleStep Rat × Rat)) (walk : Traversal Rat),
      writeKeyframes scope (factor * duration) steps (walk.scale factor) =
        (writeKeyframes scope duration steps walk).scale factor
  | [], _ => rfl
  | (step, offset) :: rest, walk => by
    have moved : (walk.scale factor).modifyCurrent
        (fun timeline => timeline.forwardTo (offset * (factor * duration))) =
          (walk.modifyCurrent fun timeline => timeline.forwardTo (offset * duration)).scale
            factor := by
      refine walk.modifyCurrent_scale factor fun timeline => ?_
      rw [mul_left_comm, timeline.forwardTo_scale positive]
    simp only [writeKeyframes, moved, writeStyle_scale]
    exact writeKeyframes_scale scope duration rest _

theorem runKeyframes_scale (scope : Params Rat) (steps : List (StyleStep Rat))
    (timings : Timings Rat) :
    (walk.scale factor).runKeyframes scope steps (timings.scale factor) =
      (walk.runKeyframes scope steps timings).scale factor := by
  have forked : (walk.scale factor).branch.modifyCurrent
      (fun timeline => { timeline with easing := (timings.scale factor).easing }) =
        (walk.branch.modifyCurrent fun timeline =>
          { timeline with easing := timings.easing }).scale factor := by
    rw [branch_scale]
    exact modifyCurrent_scale factor _ fun _ => rfl
  have ends : some ((walk.scale factor).now + (timings.scale factor).duration) =
      (some (walk.now + timings.duration)).map (factor * ·) := by
    rw [now_scale]
    exact congrArg some (mul_add factor walk.now timings.duration).symm
  have duration : (timings.scale factor).duration = factor * timings.duration := rfl
  simp only [runKeyframes, forked, ends]
  simp only [duration, writeKeyframes_scale positive]
  rw [← continueAt_scale]
  simp only [scale, Stage.absorb_scale _ positive]

theorem runEmpty_scale (timings : Timings Rat) :
    (walk.scale factor).runEmpty (timings.scale factor) =
      (walk.runEmpty timings).scale factor := by
  have duration : (timings.scale factor).duration = factor * timings.duration := rfl
  simp only [runEmpty, duration, walk.pass_scale positive]
  simp only [scale, Stage.writeEmptyStep_scale]
  rfl

theorem runAnimate_scale (scope : Params Rat) {timing : Timing Rat} (numbers : timing.InNumbers)
    (payload : Option (Payload Rat)) :
    (walk.scale factor).runAnimate scope (timing.scale factor) payload =
      (walk.runAnimate scope timing payload).scale factor := by
  have awaited := walk.awaitPayload_scale positive scope numbers
  have timings : ((timing.scale factor).resolve scope).1 =
      (timing.resolve scope).1.scale factor :=
    congrArg Prod.fst (Timing.resolve_scale positive scope numbers)
  match payload with
  | none => rw [runAnimate_empty, runAnimate_empty, awaited, timings, runEmpty_scale _ positive]
  | some (.keyframes steps) =>
    rw [runAnimate_keyframes, runAnimate_keyframes, awaited, timings, runKeyframes_scale _ positive]
  | some (.style step) =>
    rw [runAnimate_style, runAnimate_style, awaited, timings, ← writeStyle_scale,
      ← pass_scale _ positive]
    rfl

theorem enterSequence_scale (settings : Settings Rat) :
    (walk.scale factor).enterSequence (settings.scale factor) =
      (walk.enterSequence settings).scale factor := by
  have previous : (walk.scale factor).previous = walk.previous := rfl
  simp only [enterSequence, previous]
  split
  · rw [modifyCurrent_scale factor walk fun timeline => by
      rw [Settings.scale, timeline.forwardFrame_scale positive settings.frameLength,
        Timeline.snapshot_scale]]
    rfl
  · rfl

theorem leaveGroup_scale (entry : Traversal Rat) (branches : List Nat) (furthest : Rat) :
    (entry.scale factor).leaveGroup branches (factor * furthest) (walk.scale factor) =
      (entry.leaveGroup branches furthest walk).scale factor := by
  have absorbed : branches.foldl (fun stage source => stage.absorb entry.current source)
      (walk.stage.scale factor) =
        (branches.foldl (fun stage source => stage.absorb entry.current source)
          walk.stage).scale factor :=
    List.foldl_hom (Stage.scale factor) fun stage source =>
      stage.absorb_scale positive entry.current source
  have ends : some (factor * furthest) = (some furthest).map (factor * ·) := rfl
  simp only [leaveGroup, ends]
  rw [← continueAt_scale]
  simp only [scale, absorbed]

end Operations

/-! ## The walk -/

mutual

/-- **A visit to a scaled tree does to the scaled walk what the visit does to the walk.** -/
theorem visit_scale (positive : 0 < factor) (settings : Settings Rat) :
    ∀ (tree : Tree Rat) (scope : Params Rat) (walk : Traversal Rat),
      (∀ node ∈ tree.nodes, node.TimedInNumbers) →
        visit (settings.scale factor) scope (tree.scale factor) (walk.scale factor) =
          (visit settings scope tree walk).scale factor
  | .sequence steps, scope, walk, timed => by
    have steps := visitSteps_scale positive settings steps scope (walk.enterSequence settings)
      (List.forall_mem_cons.1 timed).2
    simp only [Tree.scale, visit, enterSequence_scale _ positive, steps, Tree.anyForks_scale]
    split
    · exact congrArg (after · .sequence) (continueAt_scale factor _ none)
    · rfl
  | .group branches, scope, walk, timed => by
    have visited := visitBranches_scale positive settings branches scope walk [] walk.now walk
      (List.forall_mem_cons.1 timed).2
    simp only [Tree.scale, visit, now_scale, visited]
    rfl
  | .animate timing payload, scope, walk, timed =>
    congrArg (after · .animate)
      (walk.runAnimate_scale positive scope (timed _ List.mem_cons_self) payload)
  | .style step, scope, walk, _ =>
    congrArg (after · .style) (walk.writeBareStyle_scale positive settings scope step)
  | .reference animation defaults, scope, walk, timed =>
    congrArg (after · .reference) (visit_scale positive settings animation
      (referenceScope defaults scope) walk (List.forall_mem_cons.1 timed).2)
  | .animateRef animation defaults overrides, scope, walk, timed =>
    congrArg (after · .animateRef) (visit_scale positive settings animation
      (invocationScope defaults scope overrides) walk (List.forall_mem_cons.1 timed).2)
  | .state .., _, _, _ => rfl
  | .transition .., _, _, _ => rfl
  | .keyframes .., _, _, _ => rfl
  | .trigger .., _, _, _ => rfl
  | .animateChild .., _, _, _ => rfl
  | .query .., _, _, _ => rfl
  | .stagger .., _, _, _ => rfl

theorem visitSteps_scale (positive : 0 < factor) (settings : Settings Rat) :
    ∀ (steps : List (Tree Rat)) (scope : Params Rat) (walk : Traversal Rat),
      (∀ node ∈ Tree.allNodes steps, node.TimedInNumbers) →
        visitSteps (settings.scale factor) scope (Tree.scaleAll factor steps)
            (walk.scale factor) =
          (visitSteps settings scope steps walk).scale factor
  | [], _, _, _ => rfl
  | step :: rest, scope, walk, timed => by
    obtain ⟨first, others⟩ := Tree.forall_mem_allNodes_cons.1 timed
    rw [Tree.scaleAll, visitSteps, visitSteps, visit_scale positive settings step scope walk first,
      visitSteps_scale positive settings rest scope _ others]

theorem visitBranches_scale (positive : 0 < factor) (settings : Settings Rat) :
    ∀ (branches : List (Tree Rat)) (scope : Params Rat) (entry : Traversal Rat) (ends : List Nat)
      (furthest : Rat) (walk : Traversal Rat),
      (∀ node ∈ Tree.allNodes branches, node.TimedInNumbers) →
        visitBranches (settings.scale factor) scope (entry.scale factor)
            (Tree.scaleAll factor branches) ends (factor * furthest) (walk.scale factor) =
          (visitBranches settings scope entry branches ends furthest walk).scale factor
  | [], _, entry, ends, furthest, walk, _ => walk.leaveGroup_scale positive entry ends furthest
  | branch :: rest, scope, entry, ends, furthest, walk, timed => by
    obtain ⟨first, others⟩ := Tree.forall_mem_allNodes_cons.1 timed
    have visited := visit_scale positive settings branch scope (entry.enterBranch walk) first
    rw [← enterBranch_scale] at visited
    have further := visitBranches_scale positive settings rest scope entry
      (ends ++ [(visit settings scope branch (entry.enterBranch walk)).current])
      (Scalar.larger furthest (visit settings scope branch (entry.enterBranch walk)).now)
      (visit settings scope branch (entry.enterBranch walk)) others
    rw [Tree.scaleAll, visitBranches_cons, visitBranches_cons, visited, now_scale,
      Scalar.larger_scale positive]
    exact further

end

/-! ## Compiling -/

theorem start_scale (starting : Styles Rat) : (start starting).scale factor = start starting := by
  have created : (Stage.empty.create 0).scale factor = Stage.empty.create 0 := by
    rw [Stage.create, ← Stage.push_scale, ← Timeline.blank_scale, mul_zero]
    rfl
  rw [start, scale, ← Stage.write_scale, created]

theorem land_scale (walk : Traversal Rat) (destination : Styles Rat) :
    (walk.scale factor).land destination = (walk.land destination).scale factor := by
  have completed : ((walk.stage.scale factor).timeline walk.current).completeDestination
      destination = (walk.stage.timeline walk.current).completeDestination destination := by
    simp only [Stage.timeline_scale, Timeline.completeDestination, Timeline.currentStyles_scale]
    rfl
  simp only [land, scale, completed]
  split
  · rfl
  · exact walk.stage.land_scale factor walk.current _

end Traversal

theorem Stage.instructions_scale (positive : 0 < factor) (stage : Stage Rat) :
    (stage.scale factor).instructions = stage.instructions.map (Instruction.scale factor) := by
  have kept : Timeline.hasStyling ∘ Timeline.scale factor = Timeline.hasStyling :=
    funext fun timeline => timeline.hasStyling_scale positive
  have emitted : ((stage.scale factor).timelines.filter Timeline.hasStyling).map
      Timeline.instruction = ((stage.timelines.filter Timeline.hasStyling).map
        Timeline.instruction).map (Instruction.scale factor) := by
    rw [scale, List.filter_map, kept, List.map_map, List.map_map]
    exact List.map_congr_left fun timeline _ => timeline.instruction_scale positive
  have noop : Instruction.noop.scale factor = Instruction.noop := by
    rw [Instruction.scale, Instruction.noop, mul_zero]
  simp only [instructions, emitted, List.isEmpty_map]
  split
  · rw [List.map_singleton, noop]
  · rfl

theorem Tree.compile_scale (positive : 0 < factor) (tree : Tree Rat) (settings : Settings Rat)
    (starting destination : Styles Rat) (scope : Params Rat)
    (timed : ∀ node ∈ tree.nodes, node.TimedInNumbers) :
    (tree.scale factor).compile (settings.scale factor) starting destination scope =
      ((tree.compile settings starting destination scope).1.map (Instruction.scale factor),
        (tree.compile settings starting destination scope).2) := by
  have visited := Traversal.visit_scale positive settings tree scope (Traversal.start starting)
    timed
  rw [Traversal.start_scale] at visited
  simp only [compile, visited, Traversal.land_scale, Stage.instructions_scale positive]
  rfl

/-- **A scaled animation is the animation on another clock.** Multiplying every timing of a tree
and the length of a frame by a positive factor multiplies the duration and the delay of every
instruction and leaves the keyframes with their styles, easings and offsets as they are. The
compilation meets the same problems, and the validation reports the same ones in the same order,
each collision on the same property. -/
theorem Tree.scale_animation (positive : 0 < factor) (tree : Tree Rat) (settings : Settings Rat)
    (starting destination : Styles Rat) (scope : Params Rat)
    (timed : ∀ node ∈ tree.nodes, node.TimedInNumbers) :
    (tree.scale factor).compile (settings.scale factor) starting destination scope =
        ((tree.compile settings starting destination scope).1.map (Instruction.scale factor),
          (tree.compile settings starting destination scope).2) ∧
      (tree.scale factor).validate scope = (tree.validate scope).map (Problem.scale factor) :=
  ⟨tree.compile_scale positive settings starting destination scope timed,
    tree.validate_scale positive scope timed⟩

/-- Two branches turn one box: a keyframe list, and a delayed step with a bare style behind it. -/
def twiceTurnedBox : Tree Rat :=
  .group
    [.animateThrough (.millis 40)
        [.ofEntries [("angle", .number 0)], .ofEntries [("angle", .number 90)]],
      .sequence
        [.animateTo (.resolved ⟨30, 5, some "ease-in"⟩) (.ofEntries [("angle", .number 45)]),
          .style (.ofEntries [("color", .text "red")])]]

/-- At two fifths of the speed, both branches take two and a half times as long, the frame in front
of the bare style included, and they collide in windows as much longer. -/
theorem scale_twiceTurnedBox :
    (0 : Rat) < 5 / 2 ∧ (∀ node ∈ twiceTurnedBox.nodes, node.TimedInNumbers) ∧
      ((twiceTurnedBox.scale (5 / 2)).compile (Settings.standard.scale (5 / 2)) ∅ ∅ ∅).1.map
          (fun instruction => (instruction.delay, instruction.duration)) =
        [(0, 100), (0, 90)] ∧
      (twiceTurnedBox.scale (5 / 2)).validate ∅ =
        [.collision "angle" ⟨0, 100⟩ ⟨0, 175 / 2⟩] := by
  have positive : (0 : Rat) < 5 / 2 := by norm_num
  have timed : ∀ node ∈ twiceTurnedBox.nodes, node.TimedInNumbers := by decide
  obtain ⟨compiled, validated⟩ :=
    Tree.scale_animation positive twiceTurnedBox Settings.standard ∅ ∅ ∅ timed
  rw [compiled, validated]
  exact ⟨positive, timed, by decide +kernel, by decide +kernel⟩

end Storyboard
