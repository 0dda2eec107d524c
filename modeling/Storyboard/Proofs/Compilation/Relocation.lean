import Storyboard.Proofs.Compilation.Ledger

/-!
# Timelines in front

A visit works on the timeline that it begins on and on those that it opens. Which other timelines
the stage holds, and how many, makes no difference to it: visiting a tree with other timelines put
in front of the stage gives what visiting it without them gives, with the same timelines put in
front afterwards (`Traversal.visit_behind`).

So a visit that begins on the timeline opened last leaves all earlier ones exactly as they are, and
what it adds behind them depends on that one timeline and the shared styles alone.
-/

set_option autoImplicit false

namespace Storyboard

variable {ν : Type}

/-! ## Stages -/

/-- The stage with other timelines in front of its own. -/
def Stage.behind (others : List (Timeline ν)) (stage : Stage ν) : Stage ν :=
  { stage with timelines := others ++ stage.timelines }

namespace Stage

variable (others : List (Timeline ν)) (stage : Stage ν)

theorem size_behind : (stage.behind others).size = others.length + stage.size :=
  List.length_append

theorem get?_behind (id : Nat) :
    (stage.behind others).get? (others.length + id) = stage.get? id := by
  rw [get?, behind, List.getElem?_append_right (Nat.le_add_right _ _), Nat.add_sub_cancel_left]
  rfl

theorem modify_behind (id : Nat) (change : Timeline ν → Timeline ν) :
    (stage.behind others).modify (others.length + id) change =
      (stage.modify id change).behind others := by
  simp only [modify, behind, Stage.mk.injEq, and_true]
  exact List.modifyTailIdx_add (List.modifyHead change) id others stage.timelines

theorem push_behind (timeline : Timeline ν) :
    (stage.behind others).push timeline = (stage.push timeline).behind others := by
  simp only [push, behind, List.append_assoc]

theorem easeSegment_behind (id : Nat) (easing : Option String) :
    (stage.behind others).easeSegment (others.length + id) easing =
      (stage.easeSegment id easing).behind others := by
  cases easing with
  | none => rfl
  | some easing => exact stage.modify_behind others id _

theorem writeEmptyStep_behind (id : Nat) (easing : Option String) :
    (stage.behind others).writeEmptyStep (others.length + id) easing =
      (stage.writeEmptyStep id easing).behind others := by
  rw [writeEmptyStep, easeSegment_behind, modify_behind]
  rfl

variable [Scalar ν]

theorem timeline_behind (id : Nat) :
    (stage.behind others).timeline (others.length + id) = stage.timeline id := by
  rw [timeline, get?_behind]
  rfl

theorem now_behind (id : Nat) : (stage.behind others).now (others.length + id) = stage.now id := by
  rw [now, timeline_behind]
  rfl

theorem fork_behind (parent : Nat) (start : Option ν) (inherits : Bool) :
    (stage.behind others).fork (others.length + parent) start inherits =
      (stage.fork parent start inherits).behind others := by
  simp only [fork, timeline_behind, push_behind]

theorem writeEntry_behind (id : Nat) (entry : String × Value ν) :
    (stage.behind others).writeEntry (others.length + id) entry =
      (stage.writeEntry id entry).behind others := by
  unfold writeEntry
  split
  · rfl
  · rw [modify_behind]
    rfl

theorem write_behind (id : Nat) (styles : Styles ν) (easing : Option String) :
    (stage.behind others).write (others.length + id) styles easing =
      (stage.write id styles easing).behind others := by
  have entries : styles.entries.foldl
      (fun written entry => written.writeEntry (others.length + id) entry)
      ((stage.easeSegment id easing).behind others) =
        (styles.entries.foldl (fun written entry => written.writeEntry id entry)
          (stage.easeSegment id easing)).behind others :=
    List.foldl_hom (behind others) fun written entry => written.writeEntry_behind others id entry
  rw [write, easeSegment_behind, entries, modify_behind]
  rfl

theorem land_behind (id : Nat) (styles : Styles ν) :
    (stage.behind others).land (others.length + id) styles =
      (stage.land id styles).behind others := by
  rw [land, write_behind, modify_behind]
  rfl

omit [Scalar ν] in
theorem adoptEntry_behind (id : Nat) (entry : String × Stamped ν) :
    (stage.behind others).adoptEntry (others.length + id) entry =
      (stage.adoptEntry id entry).behind others := by
  rw [adoptEntry, modify_behind]
  rfl

theorem absorb_behind (target source : Nat) :
    (stage.behind others).absorb (others.length + target) (others.length + source) =
      (stage.absorb target source).behind others := by
  rw [absorb, timeline_behind, timeline_behind]
  exact List.foldl_hom (behind others) fun merged entry =>
    merged.adoptEntry_behind others target entry

end Stage

/-! ## Walks -/

/-- The walk on a stage with other timelines in front. -/
def Traversal.behind (others : List (Timeline ν)) (walk : Traversal ν) : Traversal ν :=
  { walk with stage := walk.stage.behind others, current := others.length + walk.current }

namespace Traversal

section Operations

variable (others : List (Timeline ν)) (walk : Traversal ν)

theorem modifyCurrent_behind (change : Timeline ν → Timeline ν) :
    (walk.behind others).modifyCurrent change = (walk.modifyCurrent change).behind others := by
  simp only [modifyCurrent, behind, Stage.modify_behind]

variable [Scalar ν]

theorem now_behind : (walk.behind others).now = walk.now :=
  walk.stage.now_behind others walk.current

theorem continueAt_behind (time : Option ν) :
    (walk.behind others).continueAt time = (walk.continueAt time).behind others := by
  simp only [continueAt, behind, Stage.fork_behind, Stage.size_behind]

theorem branch_behind : (walk.behind others).branch = walk.branch.behind others := by
  simp only [branch, behind, Stage.fork_behind, Stage.size_behind]

/-- The fork of a branch is taken from the timeline on which the group was entered. -/
theorem enterBranch_behind (entry : Traversal ν) :
    (entry.behind others).enterBranch (walk.behind others) =
      (entry.enterBranch walk).behind others :=
  branch_behind others { walk with current := entry.current, previous := entry.previous }

theorem pass_behind (time : ν) : (walk.behind others).pass time = (walk.pass time).behind others :=
  walk.modifyCurrent_behind others _

theorem writeStyle_behind (scope : Params ν) (step : StyleStep ν) (easing : Option String) :
    (walk.behind others).writeStyle scope step easing =
      (walk.writeStyle scope step easing).behind others := by
  simp only [writeStyle, report, behind, Stage.write_behind]

theorem writeBareStyle_behind (settings : Settings ν) (scope : Params ν) (step : StyleStep ν) :
    (walk.behind others).writeBareStyle settings scope step =
      (walk.writeBareStyle settings scope step).behind others := by
  have previous : (walk.behind others).previous = walk.previous := rfl
  simp only [writeBareStyle, previous]
  split
  · rw [modifyCurrent_behind, writeStyle_behind]
  · exact walk.writeStyle_behind others scope step none

theorem writeKeyframes_behind (scope : Params ν) (duration : ν) :
    ∀ (steps : List (StyleStep ν × ν)) (walk : Traversal ν),
      writeKeyframes scope duration steps (walk.behind others) =
        (writeKeyframes scope duration steps walk).behind others
  | [], _ => rfl
  | (step, offset) :: rest, walk => by
    simp only [writeKeyframes, modifyCurrent_behind, writeStyle_behind]
    exact writeKeyframes_behind scope duration rest _

theorem runKeyframes_behind (scope : Params ν) (steps : List (StyleStep ν)) (timings : Timings ν) :
    (walk.behind others).runKeyframes scope steps timings =
      (walk.runKeyframes scope steps timings).behind others := by
  simp only [runKeyframes, branch_behind, modifyCurrent_behind, writeKeyframes_behind, now_behind]
  simp only [behind, continueAt, Stage.absorb_behind, Stage.fork_behind, Stage.size_behind]

theorem runEmpty_behind (timings : Timings ν) :
    (walk.behind others).runEmpty timings = (walk.runEmpty timings).behind others := by
  simp only [runEmpty, pass_behind]
  simp only [behind, Stage.writeEmptyStep_behind]

theorem awaitPayload_behind (scope : Params ν) (timing : Timing ν) :
    (walk.behind others).awaitPayload scope timing =
      (walk.awaitPayload scope timing).behind others := by
  have reported : (walk.behind others).report (timing.resolve scope).2 =
      (walk.report (timing.resolve scope).2).behind others := rfl
  unfold awaitPayload wait
  rw [reported]
  split
  · rw [pass_behind, modifyCurrent_behind]
  · rfl

theorem runAnimate_behind (scope : Params ν) (timing : Timing ν) (payload : Option (Payload ν)) :
    (walk.behind others).runAnimate scope timing payload =
      (walk.runAnimate scope timing payload).behind others := by
  match payload with
  | none =>
    rw [runAnimate_empty, runAnimate_empty, awaitPayload_behind, runEmpty_behind]
  | some (.keyframes steps) =>
    rw [runAnimate_keyframes, runAnimate_keyframes, awaitPayload_behind, runKeyframes_behind]
  | some (.style step) =>
    rw [runAnimate_style, runAnimate_style, awaitPayload_behind, pass_behind, writeStyle_behind]

theorem enterSequence_behind (settings : Settings ν) :
    (walk.behind others).enterSequence settings = (walk.enterSequence settings).behind others := by
  have previous : (walk.behind others).previous = walk.previous := rfl
  simp only [enterSequence, previous]
  split
  · rw [modifyCurrent_behind]
    rfl
  · rfl

theorem leaveGroup_behind (entry : Traversal ν) (branches : List Nat) (furthest : ν) :
    (entry.behind others).leaveGroup (branches.map (others.length + ·)) furthest
        (walk.behind others) = (entry.leaveGroup branches furthest walk).behind others := by
  have absorbed : branches.foldl (fun stage source => stage.absorb (others.length + entry.current)
      (others.length + source)) (walk.stage.behind others) =
        (branches.foldl (fun stage source => stage.absorb entry.current source)
          walk.stage).behind others :=
    List.foldl_hom (Stage.behind others) fun stage source =>
      stage.absorb_behind others entry.current source
  simp only [leaveGroup, List.foldl_map, continueAt]
  simp only [behind, absorbed, Stage.fork_behind, Stage.size_behind]

end Operations

section Visits

variable [Scalar ν] (others : List (Timeline ν)) (settings : Settings ν)

mutual

/-- **A visit does not depend on the timelines in front.** -/
theorem visit_behind : ∀ (tree : Tree ν) (scope : Params ν) (walk : Traversal ν),
    visit settings scope tree (walk.behind others) =
      (visit settings scope tree walk).behind others
  | .sequence steps, scope, walk => by
    simp only [visit, enterSequence_behind, visitSteps_behind steps scope]
    split
    · rw [continueAt_behind]
      rfl
    · rfl
  | .group branches, scope, walk => by
    have visited := visitBranches_behind branches scope walk [] walk.now walk
    simp only [visit, now_behind]
    rw [List.map_nil] at visited
    rw [visited]
    rfl
  | .animate timing payload, scope, walk => by
    simp only [visit, runAnimate_behind]
    rfl
  | .style step, scope, walk => by
    simp only [visit, writeBareStyle_behind]
    rfl
  | .reference animation defaults, scope, walk => by
    simp only [visit, visit_behind animation]
    rfl
  | .animateRef animation defaults overrides, scope, walk => by
    simp only [visit, visit_behind animation]
    rfl
  | .state .., _, _ => rfl
  | .transition .., _, _ => rfl
  | .keyframes .., _, _ => rfl
  | .trigger .., _, _ => rfl
  | .animateChild .., _, _ => rfl
  | .query .., _, _ => rfl
  | .stagger .., _, _ => rfl

theorem visitSteps_behind : ∀ (steps : List (Tree ν)) (scope : Params ν) (walk : Traversal ν),
    visitSteps settings scope steps (walk.behind others) =
      (visitSteps settings scope steps walk).behind others
  | [], _, _ => rfl
  | step :: rest, scope, walk => by
    rw [visitSteps, visitSteps, visit_behind step, visitSteps_behind rest]

theorem visitBranches_behind : ∀ (branches : List (Tree ν)) (scope : Params ν)
    (entry : Traversal ν) (ends : List Nat) (furthest : ν) (walk : Traversal ν),
    visitBranches settings scope (entry.behind others) branches (ends.map (others.length + ·))
        furthest (walk.behind others) =
      (visitBranches settings scope entry branches ends furthest walk).behind others
  | [], _, entry, ends, furthest, walk => walk.leaveGroup_behind others entry ends furthest
  | branch :: rest, scope, entry, ends, furthest, walk => by
    have visited := visit_behind branch scope (entry.enterBranch walk)
    rw [← enterBranch_behind] at visited
    have further := visitBranches_behind rest scope entry
      (ends ++ [(visit settings scope branch (entry.enterBranch walk)).current])
      (Scalar.larger furthest (visit settings scope branch (entry.enterBranch walk)).now)
      (visit settings scope branch (entry.enterBranch walk))
    rw [List.map_append] at further
    refine Eq.trans ?_ further
    show visitBranches settings scope (entry.behind others) rest
      (_ ++ [(visit settings scope branch
        ((entry.behind others).enterBranch (walk.behind others))).current])
      (Scalar.larger furthest (visit settings scope branch
        ((entry.behind others).enterBranch (walk.behind others))).now)
      (visit settings scope branch ((entry.behind others).enterBranch (walk.behind others))) = _
    rw [visited, now_behind]
    rfl

end

end Visits

end Traversal

end Storyboard
