import Storyboard.Proofs.Compilation.Emitted
import Storyboard.Proofs.Compilation.FirstStep
import Storyboard.Proofs.Compilation.Handover

/-!
# The step after a group

An animation that begins with a group and goes on with an animated step of one property. The
timeline behind the group is emitted last, and its first keyframe shows what the group handed over
(`Tree.compile_step_after_group`). This is the write of the branches with the latest time if every
branch ends on the timeline that holds its latest write, and the starting styles do not write the
property at that same time. Otherwise an earlier write may be shown, as two branches show of which
the first turns to a keyframe list at its end (`latestWrite_is_lost`).
-/

set_option autoImplicit false

namespace Storyboard

variable {ν : Type} [Scalar ν]

/-! ## The walk behind the group -/

/-- Behind a group the walk is on a blank timeline that was just opened. -/
theorem Traversal.stage_visit_group (settings : Settings ν) (scope : Params ν)
    (branches : List (Tree ν)) (walk : Traversal ν) :
    ∃ (base : Stage ν) (start : ν),
      (visit settings scope (.group branches) walk).stage = base.push (Timeline.blank start ∅) ∧
        (visit settings scope (.group branches) walk).current = base.size := by
  obtain ⟨reached, left⟩ :=
    visitBranches_eq_leaveGroup "" settings scope walk branches [] walk.now walk
  simp only [visit, after]
  rw [left]
  exact ⟨_, reached, rfl, rfl⟩

/-- A stage whose last timeline is blank emits the one before it last. -/
theorem Stage.getLast?_instructions_push {stage : Stage ν} {earlier : List (Timeline ν)}
    {shown : Timeline ν} (styled : shown.hasStyling = true)
    (timelines : stage.timelines = earlier ++ [shown]) (start : ν) :
    (stage.push (Timeline.blank start ∅)).instructions.getLast? = some shown.instruction := by
  have pushed : (stage.push (Timeline.blank start ∅)).timelines =
      earlier ++ shown :: [Timeline.blank start ∅] := by
    simp only [push, timelines, List.append_assoc, List.singleton_append]
  exact getLast?_instructions pushed styled rfl

/-- Nothing is landed on a blank timeline when there are no destination styles. -/
theorem Traversal.land_blank {walk : Traversal ν} {base : Stage ν} {start : ν}
    (stage : walk.stage = base.push (Timeline.blank start ∅)) (current : walk.current = base.size) :
    walk.land ∅ = walk.stage := by
  have blank : walk.stage.timeline walk.current = Timeline.blank start ∅ := by
    rw [stage, current, Stage.timeline_push, if_pos rfl]
  have completed : (Timeline.blank start (∅ : Styles ν)).completeDestination ∅ = ∅ := rfl
  simp only [land, blank, completed]
  rfl

/-! ## The starting styles -/

/-- What the starting styles write of a property. -/
def Styles.opening (starting : Styles ν) (property : String) : Option (Stamped ν) :=
  (starting.get? property).map fun value => ⟨0 + 0, value⟩

theorem Traversal.placed_start (starting : Styles ν) : (start starting).Placed := by
  have size : (start starting).stage.size = 1 :=
    Stage.size_eq_of_skeletons (Stage.skeletons_write _ 0 starting none)
  show 0 < (start starting).stage.size
  rw [size]
  exact Nat.zero_lt_one

theorem Traversal.summary_start (starting : Styles ν) {property : String}
    (free : property ≠ offsetKey) :
    ((start starting).stage.holding property).summary 0 = starting.opening property := by
  have opened : 0 < ((Stage.empty : Stage ν).create 0).size := Nat.zero_lt_one
  have written := Stage.holding_write opened free starting none
  rw [show (start starting).stage.holding property =
    (((Stage.empty : Stage ν).create 0).write 0 starting none).holding property from rfl, written,
    Styles.opening]
  cases starting.get? property <;> rfl

/-! ## The compiled animation -/

/-- A group, and then an animated step of one property. -/
def Tree.stepAfterGroup (branches : List (Tree ν)) (time : ν) (property : String)
    (value : Value ν) : Tree ν :=
  .sequence [.group branches, .animateTo (.millis time) (.ofEntries [(property, value)])]

/-- The branches of a group with which an animation begins. -/
def openingRuns (property : String) (settings : Settings ν) (starting : Styles ν)
    (scope : Params ν) (branches : List (Tree ν)) : List (BranchRun ν) :=
  Traversal.branchRuns property settings scope (.start starting) branches (.start starting)

variable [LawfulScalar ν]

/-- The last instruction is the one of the step, which knows the value shared behind the group. -/
theorem Tree.getLast?_compile_stepAfterGroup {property : String} (free : property ≠ offsetKey)
    (unreserved : property ≠ easingKey) (settings : Settings ν) (starting : Styles ν)
    (scope : Params ν) {branches : List (Tree ν)} (nonempty : branches.isEmpty = false) {time : ν}
    (positive : 0 < time) (value : Value ν) :
    ∃ start, ((Tree.stepAfterGroup branches time property value).compile settings starting ∅
      scope).1.getLast? = some (Timeline.firstStep start time property (value.fill scope).1
        ((Traversal.visit settings scope (.group branches)
          (.start starting)).stage.shared.get? property)).instruction := by
  obtain ⟨base, start, stage, current⟩ :=
    Traversal.stage_visit_group settings scope branches (.start starting)
  have stepped := Traversal.timelines_firstStep stage current scope positive free unreserved value
  have known : base.shared = (Traversal.visit settings scope (.group branches)
      (.start starting)).stage.shared := by
    rw [stage]
    rfl
  rw [known] at stepped
  have styled := (Timeline.keyframe_firstStep start positive free (value.fill scope).1
    ((Traversal.visit settings scope (.group branches)
      (.start starting)).stage.shared.get? property)).1
  have forks : Tree.anyForks [.group branches,
      .animateTo (.millis time) (.ofEntries [(property, value)])] = true := by
    simp only [Tree.anyForks, Tree.forks, nonempty, Bool.not_false, Bool.true_or]
  have walked : (Traversal.visit settings scope (Tree.stepAfterGroup branches time property value)
      (.start starting)) = ((((Traversal.visit settings scope (.group branches)
        (.start starting)).runAnimate scope (.millis time)
          (some (.style (.ofEntries [(property, value)])))).after .animate).continueAt none).after
            .sequence := by
    rw [Tree.stepAfterGroup, Traversal.visit, if_pos forks]
    rfl
  refine ⟨start, ?_⟩
  simp only [Tree.compile, walked]
  rw [Traversal.land_blank rfl rfl]
  exact Stage.getLast?_instructions_push styled stepped _

/-- **What the step after a group starts from.** -/
theorem Tree.compile_step_after_group {property : String} (free : property ≠ offsetKey)
    (unreserved : property ≠ easingKey) (settings : Settings ν) (starting : Styles ν)
    (scope : Params ν) (branches : List (Tree ν)) {time : ν} (positive : 0 < time)
    (value : Value ν)
    (written : ∃ run ∈ openingRuns property settings starting scope branches,
      ∃ entry ∈ run.ledger, entry.carried = false) :
    ∃ instruction keyframe handed latest,
      ((Tree.stepAfterGroup branches time property value).compile settings starting ∅
        scope).1.getLast? = some instruction ∧
      instruction.keyframes.head? = some keyframe ∧
      keyframe.get? offsetKey = some (.number 0) ∧
      BranchRun.handover (starting.opening property)
        (openingRuns property settings starting scope branches) = some handed ∧
      BranchRun.latestWrite (openingRuns property settings starting scope branches) = some latest ∧
      keyframe.get? property = some handed.value ∧
      (keyframe.get? property = some latest.value ↔ handed.value = latest.value) ∧
      ((∀ run ∈ openingRuns property settings starting scope branches,
          run.handedOver = run.latest) →
        latest.supersedes (starting.opening property) = true → handed = latest) := by
  obtain ⟨latest, isLatest⟩ := BranchRun.latestWrite_isSome written
  obtain ⟨handed, isHanded⟩ := BranchRun.handover_isSome (starting.opening property) written
  have shared : (Traversal.visit settings scope (.group branches)
      (.start starting)).stage.shared.get? property = some handed.value := by
    have entered : BranchRun.handover (starting.opening property) (Traversal.branchRuns property
        settings scope (.start starting) branches (.start starting)) = some handed := isHanded
    rw [Traversal.shared_visit_group free settings scope branches
      (Traversal.placed_start starting), show (Traversal.start starting).current = 0 from rfl,
      Traversal.summary_start starting free, entered]
    rfl
  have nonempty : branches.isEmpty = false := by
    cases branches with
    | nil =>
      obtain ⟨run, member, _⟩ := written
      exact absurd member List.not_mem_nil
    | cons => rfl
  obtain ⟨start, compiled⟩ := Tree.getLast?_compile_stepAfterGroup free unreserved settings starting
    scope nonempty positive value
  rw [shared] at compiled
  obtain ⟨_, keyframe, head, offset, shown⟩ := Timeline.keyframe_firstStep start positive free
    (value.fill scope).1 (some handed.value)
  refine ⟨_, keyframe, handed, latest, compiled, head, offset, isHanded, isLatest, shown, ?_, ?_⟩
  · rw [shown]
    exact Option.some_inj
  · intro delivered later
    have entered := BranchRun.handover_eq_latestWrite isLatest delivered later
    exact Option.some.inj (isHanded.symm.trans entered)

/-- An animated step that sets one property to a text. -/
def setTo (milliseconds : Nat) (property text : String) : Tree Binary64 :=
  .animateTo (.millis (Binary64.ofNat milliseconds)) (.ofEntries [(property, .text text)])

/-- The color is set to red after 200 milliseconds, and beside it to blue after 100. -/
def lateRedBesideBlue : List (Tree Binary64) :=
  [.sequence [setTo 100 "width" "5px", setTo 100 "color" "red"], setTo 100 "color" "blue"]

theorem step_after_lateRedBesideBlue :
    ∃ instruction keyframe,
      ((Tree.stepAfterGroup lateRedBesideBlue (Binary64.ofNat 50) "color"
        (.text "green")).compile Settings.standard ∅ ∅ ∅).1.getLast? = some instruction ∧
      instruction.keyframes.head? = some keyframe ∧
      keyframe.get? "color" = some (.text "red") := by
  obtain ⟨instruction, keyframe, handed, latest, last, head, _, _, isLatest, shown, _, agree⟩ :=
    @Tree.compile_step_after_group Binary64 _ _ "color" (by decide) (by decide) Settings.standard ∅
      ∅ lateRedBesideBlue (Binary64.ofNat 50) (by decide +kernel) (.text "green")
      (by decide +kernel)
  have red : BranchRun.latestWrite (openingRuns "color" Settings.standard ∅ ∅ lateRedBesideBlue) =
      some ⟨Binary64.ofNat 200, .text "red"⟩ := by decide +kernel
  obtain rfl := Option.some.inj (red.symm.trans isLatest)
  rw [agree (by decide +kernel) (by decide +kernel)] at shown
  exact ⟨instruction, keyframe, last, head, shown⟩

/-- The same, with a keyframe list at the end of the first branch. -/
def lateRedBeforeKeyframes : List (Tree Binary64) :=
  [.sequence
    [setTo 100 "width" "5px", setTo 100 "color" "red",
      .animateThrough (.millis (Binary64.ofNat 50)) [.ofEntries [("height", .text "5px")]]],
    setTo 100 "color" "blue"]

/-- The first branch ends on a blank timeline behind its keyframe list and hands nothing over, so
the step starts from the value that was written last in the order of the visit. -/
theorem latestWrite_is_lost :
    (Tree.stepAfterGroup lateRedBeforeKeyframes (Binary64.ofNat 50) "color"
      (.text "green")).validate ∅ = [] ∧
    BranchRun.latestWrite (openingRuns "color" Settings.standard ∅ ∅ lateRedBeforeKeyframes) =
      some ⟨Binary64.ofNat 200, .text "red"⟩ ∧
    (((Tree.stepAfterGroup lateRedBeforeKeyframes (Binary64.ofNat 50) "color"
      (.text "green")).compile Settings.standard ∅ ∅ ∅).1.getLast?.bind fun instruction =>
        instruction.keyframes.head?.bind fun keyframe => keyframe.get? "color") =
          some (.text "blue") := by
  decide +kernel

end Storyboard
