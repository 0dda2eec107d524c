import Mathlib.Data.List.Forall2
import Storyboard.Proofs.Compilation.Applications
import Storyboard.Proofs.Compilation.Slots
import Storyboard.Proofs.Tree.Nodes
import Storyboard.Proofs.Validation.Inspections

/-!
# Validation and compilation in lockstep

The validation keeps one clock, the compilation keeps its time on forked timelines and inserts
frames. Read with exact numbers they agree up to these frames: the styles that a compilation writes
are those that the validation checks, in the same order and in the same scopes, and each is written
at the end of its window or later. It is later by one frame at most for every bare style and every
sequence of the tree, and so is the end of the whole animation
(`Tree.compilation_in_lockstep`). With frames of no length the two agree exactly.

Trees with triggers or transitions are left out, since only the validation enters these, and so are
keyframe lists that go back, where the validation takes the latest position so far.
-/

set_option autoImplicit false

namespace Storyboard

/-! ## Ahead of the clock -/

/-- A time is ahead of the clock, by a number of frames at most. -/
structure Settings.Ahead (settings : Settings Rat) (frames : Nat) (clock now : Rat) : Prop where
  early : clock ≤ now
  late : now ≤ clock + frames * settings.frameLength

namespace Settings.Ahead

variable {settings : Settings Rat} {frames : Nat} {clock now : Rat}

theorem refl (time : Rat) : settings.Ahead 0 time time := by
  refine ⟨le_refl time, ?_⟩
  rw [Nat.cast_zero, zero_mul, add_zero]

theorem widen (frame : 0 ≤ settings.frameLength) (ahead : settings.Ahead frames clock now)
    {further : Nat} (more : frames ≤ further) : settings.Ahead further clock now := by
  refine ⟨ahead.early, ahead.late.trans ?_⟩
  have counted : (frames : Rat) ≤ further := Nat.cast_le.2 more
  exact add_le_add (le_refl clock) (mul_le_mul_of_nonneg_right counted frame)

/-- Time passes on both sides. -/
theorem pass (ahead : settings.Ahead frames clock now) (time : Rat) :
    settings.Ahead frames (clock + time) (now + time) := by
  refine ⟨add_le_add ahead.early (le_refl time), ?_⟩
  rw [add_right_comm]
  exact add_le_add ahead.late (le_refl time)

/-- A frame is inserted. -/
theorem pause (frame : 0 ≤ settings.frameLength) (ahead : settings.Ahead frames clock now) :
    settings.Ahead (frames + 1) clock (now + settings.frameLength) := by
  refine ⟨ahead.early.trans (le_add_of_nonneg_right frame), ?_⟩
  rw [Nat.cast_succ, add_mul, one_mul, ← add_assoc]
  exact add_le_add ahead.late (le_refl settings.frameLength)

theorem larger (ahead : settings.Ahead frames clock now) {otherClock otherNow : Rat}
    (other : settings.Ahead frames otherClock otherNow) :
    settings.Ahead frames (Scalar.larger clock otherClock) (Scalar.larger now otherNow) := by
  rw [Scalar.larger_exact, Scalar.larger_exact]
  refine ⟨max_le_max ahead.early other.early, ?_⟩
  rw [← max_add_add_right]
  exact max_le_max ahead.late other.late

end Settings.Ahead

/-- How many of the nodes are bare styles or sequences. No other node makes the walk insert a
frame. -/
def Tree.pauses {ν : Type} (nodes : List (Tree ν)) : Nat :=
  nodes.countP fun node => node.kind = .style ∨ node.kind = .sequence

namespace Tree

variable {ν : Type}

theorem pauses_append (nodes more : List (Tree ν)) :
    pauses (nodes ++ more) = pauses nodes + pauses more :=
  List.countP_append

theorem pauses_sequence (steps : List (Tree ν)) :
    pauses (Tree.sequence steps).nodes = pauses (allNodes steps) + 1 :=
  List.countP_cons_of_pos (decide_eq_true (.inr rfl))

theorem pauses_style (step : StyleStep ν) : pauses (Tree.style step).nodes = 1 :=
  List.countP_cons_of_pos (decide_eq_true (.inl rfl))

theorem pauses_le_cons (node : Tree ν) (nodes : List (Tree ν)) :
    pauses nodes ≤ pauses (node :: nodes) :=
  (List.sublist_cons_self node nodes).countP_le

end Tree

/-- Validation and compilation both enter the node, or neither does, and no keyframe list goes
back. -/
structure Tree.KeepsTime (node : Tree Rat) : Prop where
  entered : node.kind ≠ .trigger ∧ node.kind ≠ .transition
  rise : node.OffsetsRise

/-- The style of an inspection is written in its scope, at the end of its window up to frames. -/
structure Application.Follows (settings : Settings Rat) (frames : Nat)
    (application : Application Rat) (inspection : Inspection Rat) : Prop where
  step : application.step = inspection.step
  scope : application.scope = inspection.scope
  ahead : settings.Ahead frames inspection.window.stop application.time

/-- Applications follow inspections one by one, and in the end the walk is ahead of the clock. -/
structure Settings.InStep (settings : Settings Rat) (frames : Nat)
    (applications : List (Application Rat)) (inspections : List (Inspection Rat))
    (clock now : Rat) : Prop where
  follows : List.Forall₂ (Application.Follows settings frames) applications inspections
  ahead : settings.Ahead frames clock now

theorem Application.Follows.widen {settings : Settings Rat} (frame : 0 ≤ settings.frameLength)
    {frames further : Nat} {application : Application Rat} {inspection : Inspection Rat}
    (follows : application.Follows settings frames inspection) (more : frames ≤ further) :
    application.Follows settings further inspection :=
  ⟨follows.step, follows.scope, follows.ahead.widen frame more⟩

namespace Settings.InStep

variable {settings : Settings Rat} {frames further : Nat} {first second : List (Application Rat)}
  {checked more : List (Inspection Rat)} {clock now : Rat}

theorem widen (frame : 0 ≤ settings.frameLength) (kept : settings.InStep frames first checked clock now)
    (wider : frames ≤ further) : settings.InStep further first checked clock now :=
  ⟨kept.follows.imp fun _ _ follows => follows.widen frame wider, kept.ahead.widen frame wider⟩

/-- What goes on in step behind something that was in step. -/
theorem behind (frame : 0 ≤ settings.frameLength)
    (later : settings.InStep further second more clock now)
    (earlier : List.Forall₂ (Application.Follows settings frames) first checked)
    (wider : frames ≤ further) :
    settings.InStep further (first ++ second) (checked ++ more) clock now := by
  refine ⟨List.rel_append (earlier.imp fun _ _ follows => ?_) later.follows, later.ahead⟩
  exact follows.widen frame wider

end Settings.InStep

namespace Traversal

variable {settings : Settings Rat} {walk : Traversal Rat} {frames : Nat} {clock : Rat}

/-! ## Operations -/

theorem now_pass (leads : walk.Leads) {time : Rat} (nonneg : 0 ≤ time) :
    (walk.pass time).now = walk.now + time := by
  have changed := timeline_modifyCurrent leads.placed fun timeline =>
    timeline.forwardTo (timeline.cursor + time)
  refine (congrArg Timeline.now changed).trans ?_
  rw [Timeline.forwardTo, Timeline.now_seek, Scalar.larger_exact,
    max_eq_left (add_nonneg leads.cursor_nonneg nonneg), ← add_assoc]
  rfl

theorem now_frame (leads : walk.Leads) :
    (walk.modifyCurrent fun timeline => timeline.forwardFrame settings.frameLength).now =
      walk.now + settings.frameLength := by
  have changed := timeline_modifyCurrent leads.placed fun timeline =>
    timeline.forwardFrame settings.frameLength
  refine (congrArg Timeline.now changed).trans ?_
  rw [Timeline.forwardFrame, Timeline.now_seek, ← add_assoc]
  rfl

theorem now_writeStyle (walk : Traversal Rat) (scope : Params Rat) (step : StyleStep Rat)
    (easing : Option String) : (walk.writeStyle scope step easing).now = walk.now :=
  now_eq (Stage.skeletons_write _ _ _ _) rfl

theorem now_awaitPayload (leads : walk.Leads) (scope : Params Rat) (timing : Timing Rat) :
    (walk.awaitPayload scope timing).now = walk.now + (timing.resolve scope).1.delay := by
  have nonneg := (timing.nonnegative_resolve scope).delay
  have reported := (slot_still leads rfl rfl : Slot walk (walk.report (timing.resolve scope).2))
  unfold awaitPayload wait
  split
  · have snapped : (((walk.report (timing.resolve scope).2).pass
        (timing.resolve scope).1.delay).modifyCurrent Timeline.snapshot).now =
          ((walk.report (timing.resolve scope).2).pass (timing.resolve scope).1.delay).now :=
      now_eq (Stage.skeletons_modify _ _ Timeline.skeleton_snapshot) rfl
    exact snapped.trans (now_pass reported.leads nonneg)
  · next still =>
    rw [le_antisymm (not_lt.1 still) nonneg, add_zero]
    rfl

/-- In front of a bare style one frame is inserted at most. -/
theorem ahead_approachStyle (frame : 0 ≤ settings.frameLength) (leads : walk.Leads)
    (ahead : settings.Ahead frames clock walk.now) :
    settings.Ahead (frames + 1) clock (walk.approachStyle settings).now := by
  unfold approachStyle
  split
  · rw [now_frame leads]
    exact ahead.pause frame
  · exact ahead.widen frame (Nat.le_succ frames)

/-- In front of a sequence one frame is inserted at most. -/
theorem ahead_enterSequence (frame : 0 ≤ settings.frameLength) (leads : walk.Leads)
    (ahead : settings.Ahead frames clock walk.now) :
    settings.Ahead (frames + 1) clock (walk.enterSequence settings).now := by
  unfold enterSequence
  split
  · have entered : (walk.modifyCurrent fun timeline =>
        (timeline.forwardFrame settings.frameLength).snapshot).now =
          walk.now + settings.frameLength :=
      (now_eq (skeletons_frameSnapshot walk settings) rfl).trans (now_frame leads)
    have paused := ahead.pause frame
    rw [← entered] at paused
    exact paused
  · exact ahead.widen frame (Nat.le_succ frames)

/-! ## Animated steps -/

/-- The keyframes of a list that does not go back are written where they are inspected. -/
theorem follows_writeKeyframes (scope : Params Rat) {duration low : Rat} (nonneg : 0 ≤ duration)
    (ahead : settings.Ahead frames clock low) :
    ∀ (steps : List (StyleStep Rat × Rat)) {walk : Traversal Rat} {earlier : Rat}, walk.Placed →
      (walk.stage.skeleton walk.current).start = low → 0 ≤ earlier →
        (earlier :: steps.map Prod.snd).Pairwise (· ≤ ·) →
          List.Forall₂ (Application.Follows settings frames)
            (walk.keyframeApplications scope duration steps)
            (keyframeInspections scope clock duration steps (clock + earlier * duration))
  | [], _, _, _, _, _, _ => .nil
  | (step, offset) :: rest, walk, earlier, placed, start, begun, rising => by
    obtain ⟨before, rising⟩ := List.pairwise_cons.1 rising
    have onward : earlier ≤ offset := before offset List.mem_cons_self
    have position : 0 ≤ offset * duration := mul_nonneg (begun.trans onward) nonneg
    have reached : Scalar.larger (clock + offset * duration) (clock + earlier * duration) =
        clock + offset * duration := by
      rw [Scalar.larger_exact]
      exact max_eq_left (add_le_add (le_refl clock) (mul_le_mul_of_nonneg_right onward nonneg))
    have moved : (walk.modifyCurrent fun timeline => timeline.forwardTo (offset * duration)).now =
        low + offset * duration := by
      refine (congrArg Timeline.now (timeline_modifyCurrent placed _)).trans ?_
      rw [Timeline.forwardTo, Timeline.now_seek, Scalar.larger_exact, max_eq_left position, ← start]
      rfl
    simp only [keyframeApplications, keyframeInspections, reached, moved]
    refine .cons ⟨rfl, rfl, ahead.pass _⟩ ?_
    refine follows_writeKeyframes scope nonneg ahead rest
      (placed_writeKeyframe placed scope duration (step, offset)) ?_ (begun.trans onward) rising
    show ((walk.writeKeyframe scope duration (step, offset)).stage.skeleton walk.current).start = low
    rw [skeleton_writeKeyframe placed, if_pos rfl, Timeline.Skeleton.start_seek, start]

/-- A keyframe list that does not go back keeps time. -/
theorem lockstep_runKeyframes (frame : 0 ≤ settings.frameLength) (leads : walk.Leads)
    (scope : Params Rat) (timing : Timing Rat) {steps : List (StyleStep Rat)}
    (rise : (keyframeOffsets steps).Pairwise (· ≤ ·))
    (ahead : settings.Ahead frames clock walk.now) :
    settings.InStep frames
      ((walk.forkKeyframes (timing.resolve scope).1).keyframeApplications scope
        (timing.resolve scope).1.duration (steps.zip (keyframeOffsets steps)))
      (keyframeInspections scope clock (timing.resolve scope).1.duration
        (steps.zip (keyframeOffsets steps)) clock)
      (clock + (timing.resolve scope).1.duration)
      (walk.runKeyframes scope steps (timing.resolve scope).1).now := by
  have ends := (slot_runKeyframes frame leads scope steps timing).2
  have start := congrArg Timeline.Skeleton.start (skeleton_forked walk (timing.resolve scope).1)
  have rising : ((0 : Rat) :: (steps.zip (keyframeOffsets steps)).map Prod.snd).Pairwise
      (· ≤ ·) := by
    rw [map_snd_zip_keyframeOffsets]
    exact List.pairwise_cons.2
      ⟨fun offset member => (keyframeOffsets_mem_unit steps offset member).1, rise⟩
  have followed := follows_writeKeyframes scope (timing.nonnegative_resolve scope).duration ahead _
    (placed_forkKeyframes walk (timing.resolve scope).1) start (le_refl 0) rising
  rw [zero_mul, add_zero] at followed
  rw [ends]
  exact ⟨followed, ahead.pass _⟩

/-- An animated step keeps time. -/
theorem lockstep_runAnimate (frame : 0 ≤ settings.frameLength) (leads : walk.Leads)
    (scope : Params Rat) (timing : Timing Rat) (payload : Option (Payload Rat))
    (rise : (Tree.animate timing payload).OffsetsRise)
    (ahead : settings.Ahead frames clock walk.now) :
    settings.InStep frames (walk.animateApplications scope timing payload)
      ((Tree.animate timing payload).inspections scope clock)
      (clock + (timing.resolve scope).1.total) (walk.runAnimate scope timing payload).now := by
  have waiting := slot_awaitPayload leads scope timing
  have waited : settings.Ahead frames (clock + (timing.resolve scope).1.delay)
      (walk.awaitPayload scope timing).now := by
    rw [now_awaitPayload leads]
    exact ahead.pass _
  have total : clock + (timing.resolve scope).1.total =
      clock + (timing.resolve scope).1.delay + (timing.resolve scope).1.duration := by
    rw [Timings.total, add_assoc, add_comm (timing.resolve scope).1.duration]
  have passed : settings.Ahead frames (clock + (timing.resolve scope).1.total)
      ((walk.awaitPayload scope timing).pass (timing.resolve scope).1.duration).now := by
    rw [total, now_pass waiting.leads (timing.nonnegative_resolve scope).duration]
    exact waited.pass _
  match payload with
  | none =>
    have still : ((walk.awaitPayload scope timing).runEmpty (timing.resolve scope).1).now =
        ((walk.awaitPayload scope timing).pass (timing.resolve scope).1.duration).now :=
      now_eq (Stage.skeletons_writeEmptyStep _ _ _) rfl
    rw [runAnimate_empty, still]
    exact ⟨.nil, passed⟩
  | some (.style step) =>
    rw [runAnimate_style, now_writeStyle]
    exact ⟨.cons ⟨rfl, rfl, passed⟩ .nil, passed⟩
  | some (.keyframes steps) =>
    rw [runAnimate_keyframes, total]
    exact lockstep_runKeyframes frame waiting.leads scope timing rise waited

/-! ## Visits -/

mutual

/-- **The visit of a tree keeps time.** -/
theorem lockstep_visit (frame : 0 ≤ settings.frameLength) :
    ∀ (tree : Tree Rat), (∀ node ∈ tree.nodes, node.KeepsTime) → ∀ (scope : Params Rat)
      {walk : Traversal Rat} {frames : Nat} {clock : Rat}, walk.Leads →
        settings.Ahead frames clock walk.now →
          settings.InStep (frames + Tree.pauses tree.nodes) (applications settings scope tree walk)
            (tree.inspections scope clock) (tree.clockAfter scope clock)
            (visit settings scope tree walk).now
  | .sequence steps, keeps, scope, walk, frames, clock, leads, ahead => by
    have entered := slot_enterSequence frame leads
    have visited := lockstep_visitSteps frame steps
      (fun node member => keeps node (List.mem_cons_of_mem _ member)) scope entered.leads
      (ahead_enterSequence frame leads ahead)
    -- The frame in front of the steps is the one for which the sequence itself is counted.
    rw [Tree.pauses_sequence, ← Nat.add_assoc, Nat.add_right_comm]
    simp only [visit, applications, Tree.inspections, Tree.clockAfter]
    split
    · have slot := slot_visitSteps frame steps scope entered.leads
      have continued := (slot_continue slot.leads).2
      exact ⟨visited.follows, continued.symm ▸ visited.ahead⟩
    · exact visited
  | .group branches, keeps, scope, _, _, _, leads, ahead => by
    have visited := lockstep_visitBranches frame branches
      (fun node member => keeps node (List.mem_cons_of_mem _ member)) scope [] (.refl leads) ahead
      ahead
    rw [visit, applications, Tree.inspections, Tree.clockAfter]
    exact visited.widen frame (Nat.add_le_add_left (Tree.pauses_le_cons _ _) _)
  | .animate timing payload, keeps, scope, _, _, _, leads, ahead =>
    lockstep_runAnimate frame leads scope timing payload
      (keeps (.animate timing payload) List.mem_cons_self).rise ahead
  | .style step, _, scope, walk, _, _, leads, ahead => by
    have moved := ahead_approachStyle frame leads ahead
    have still := now_writeStyle (walk.approachStyle settings) scope step none
    rw [Tree.pauses_style]
    exact ⟨.cons ⟨rfl, rfl, moved⟩ .nil, still.symm ▸ moved⟩
  | .reference animation defaults, keeps, scope, _, _, _, leads, ahead => by
    have visited := lockstep_visit frame animation
      (fun node member => keeps node (List.mem_cons_of_mem _ member)) (referenceScope defaults scope)
      leads ahead
    rw [visit, applications, Tree.inspections, Tree.clockAfter]
    exact visited.widen frame (Nat.add_le_add_left (Tree.pauses_le_cons _ _) _)
  | .animateRef animation defaults overrides, keeps, scope, _, _, _, leads, ahead => by
    have visited := lockstep_visit frame animation
      (fun node member => keeps node (List.mem_cons_of_mem _ member))
      (invocationScope defaults scope overrides) leads ahead
    rw [visit, applications, Tree.inspections, Tree.clockAfter]
    exact visited.widen frame (Nat.add_le_add_left (Tree.pauses_le_cons _ _) _)
  | .trigger name definitions, keeps, _, _, _, _, _, _ =>
    absurd rfl (keeps (.trigger name definitions) List.mem_cons_self).entered.1
  | .transition expression animation params, keeps, _, _, _, _, _, _ =>
    absurd rfl (keeps (.transition expression animation params) List.mem_cons_self).entered.2
  | .state .., _, _, _, _, _, _, ahead => ⟨.nil, ahead⟩
  | .keyframes .., _, _, _, _, _, _, ahead => ⟨.nil, ahead⟩
  | .animateChild .., _, _, _, _, _, _, ahead => ⟨.nil, ahead⟩
  | .query .., _, _, _, _, _, _, ahead => ⟨.nil, ahead.widen frame (Nat.le_add_right _ _)⟩
  | .stagger .., _, _, _, _, _, _, ahead => ⟨.nil, ahead.widen frame (Nat.le_add_right _ _)⟩

theorem lockstep_visitSteps (frame : 0 ≤ settings.frameLength) :
    ∀ (steps : List (Tree Rat)), (∀ node ∈ Tree.allNodes steps, node.KeepsTime) →
      ∀ (scope : Params Rat) {walk : Traversal Rat} {frames : Nat} {clock : Rat}, walk.Leads →
        settings.Ahead frames clock walk.now →
          settings.InStep (frames + Tree.pauses (Tree.allNodes steps))
            (stepApplications settings scope steps walk) (Tree.stepInspections scope steps clock)
            (Tree.clockAfterSteps scope steps clock) (visitSteps settings scope steps walk).now
  | [], _, _, _, _, _, _, ahead => ⟨.nil, ahead⟩
  | step :: rest, keeps, scope, walk, frames, clock, leads, ahead => by
    obtain ⟨inside, behind⟩ := Tree.forall_mem_allNodes_cons.1 keeps
    have visited := lockstep_visit frame step inside scope leads ahead
    have slot := slot_visit frame step scope leads
    have rested := lockstep_visitSteps frame rest behind scope slot.leads visited.ahead
    rw [Tree.allNodes, Tree.pauses_append, ← Nat.add_assoc, visitSteps]
    exact rested.behind frame visited.follows (Nat.le_add_right _ _)

theorem lockstep_visitBranches (frame : 0 ≤ settings.frameLength) :
    ∀ (branches : List (Tree Rat)), (∀ node ∈ Tree.allNodes branches, node.KeepsTime) →
      ∀ (scope : Params Rat) {entry walk : Traversal Rat} {furthest : Rat} {frames : Nat}
        {clock furthestClock : Rat} (ends : List Nat), Underway entry furthest walk.stage →
          settings.Ahead frames clock entry.now → settings.Ahead frames furthestClock furthest →
            settings.InStep (frames + Tree.pauses (Tree.allNodes branches))
              (branchApplications settings scope entry branches walk)
              (Tree.branchInspections scope branches clock)
              (Tree.furthestClock scope clock branches furthestClock)
              (visitBranches settings scope entry branches ends furthest walk).now
  | [], _, _, _, _, _, _, _, _, ends, underway, _, reached => by
    refine ⟨.nil, ?_⟩
    rw [visitBranches, (underway.leaveGroup ends).2]
    exact reached
  | branch :: rest, keeps, scope, entry, walk, furthest, frames, clock, furthestClock, ends,
      underway, ahead, reached => by
    obtain ⟨inside, behind⟩ := Tree.forall_mem_allNodes_cons.1 keeps
    obtain ⟨leads, now⟩ := underway.leads_enterBranch
    have visited := lockstep_visit frame branch inside scope leads (now.symm ▸ ahead)
    -- The next branch begins at the clock of the entry again, but behind this one the furthest end
    -- may be ahead by the frames of this branch.
    have more : frames ≤ frames + Tree.pauses branch.nodes := Nat.le_add_right _ _
    have rested := lockstep_visitBranches frame rest behind scope
      (ends ++ [(visit settings scope branch (entry.enterBranch walk)).current])
      (underway.visitBranch (slot_visit frame branch scope leads)) (ahead.widen frame more)
      ((reached.widen frame more).larger visited.ahead)
    rw [Tree.allNodes, Tree.pauses_append, ← Nat.add_assoc]
    exact rested.behind frame visited.follows (Nat.le_add_right _ _)

end

end Traversal

/-! ## Whole animations -/

theorem Settings.Ahead.eq_of_instant {settings : Settings Rat} {frames : Nat} {clock now : Rat}
    (ahead : settings.Ahead frames clock now) (instant : settings.frameLength = 0) :
    now = clock := by
  have late := ahead.late
  rw [instant, mul_zero, add_zero] at late
  exact le_antisymm late ahead.early

mutual

theorem Tree.transitionFree_of_nodes : ∀ (tree : Tree Rat),
    (∀ node ∈ tree.nodes, node.kind ≠ .transition) → tree.TransitionFree
  | .sequence steps, absent | .group steps, absent | .trigger _ steps, absent =>
    Tree.allTransitionFree_of_nodes steps fun node member =>
      absent node (List.mem_cons_of_mem _ member)
  | .reference animation _, absent | .animateRef animation _ _, absent
  | .query _ animation _ _, absent | .stagger _ animation, absent =>
    transitionFree_of_nodes animation fun node member => absent node (List.mem_cons_of_mem _ member)
  | .transition expression animation params, absent =>
    absurd rfl (absent (.transition expression animation params) List.mem_cons_self)
  | .state .., _ | .animate .., _ | .keyframes _, _ | .style _, _ | .animateChild _, _ => trivial

theorem Tree.allTransitionFree_of_nodes : ∀ (trees : List (Tree Rat)),
    (∀ node ∈ Tree.allNodes trees, node.kind ≠ .transition) → Tree.AllTransitionFree trees
  | [], _ => trivial
  | tree :: rest, absent =>
    have split := Tree.forall_mem_allNodes_cons.1 absent
    ⟨transitionFree_of_nodes tree split.1, allTransitionFree_of_nodes rest split.2⟩

end

/-- **Validation and compilation go in lockstep.** The styles written are the styles checked, one by
one and in the same scopes. Each is written at the end of the window in which it is checked or
later, by one frame at most for every bare style and every sequence, and the clocks of both walks
end in the same distance. With frames of no length there is no distance. What the walk of the
compilation writes are these applications, and what the walk of the validation books are these
inspections. -/
theorem Tree.compilation_in_lockstep (tree : Tree Rat) (settings : Settings Rat)
    (starting : Styles Rat) (scope : Params Rat) (frame : 0 ≤ settings.frameLength)
    (entered : ∀ node ∈ tree.nodes, node.kind ≠ .trigger ∧ node.kind ≠ .transition)
    (rise : ∀ node ∈ tree.nodes, node.OffsetsRise) :
    List.Forall₂
        (fun application inspection => application.step = inspection.step ∧
          application.scope = inspection.scope ∧ inspection.window.stop ≤ application.time ∧
            application.time ≤
              inspection.window.stop + Tree.pauses tree.nodes * settings.frameLength)
        (Traversal.applications settings scope tree (.start starting)) (tree.inspections scope 0) ∧
      ((Survey.visit scope tree .start).clock ≤
          (Traversal.visit settings scope tree (.start starting)).now ∧
        (Traversal.visit settings scope tree (.start starting)).now ≤
          (Survey.visit scope tree .start).clock +
            Tree.pauses tree.nodes * settings.frameLength) ∧
      (settings.frameLength = 0 →
        (Traversal.applications settings scope tree (.start starting)).map Application.time =
            (tree.inspections scope 0).map (fun inspection => inspection.window.stop) ∧
          (Traversal.visit settings scope tree (.start starting)).now =
            (Survey.visit scope tree .start).clock) ∧
      (∀ property, writtenValues (Traversal.ledger property settings scope tree (.start starting)) =
        (Traversal.applications settings scope tree (.start starting)).filterMap
          (Application.value? property)) ∧
      (Survey.start : Survey Rat).Books ((tree.inspections scope 0).flatMap Inspection.bookings)
        (Survey.visit scope tree .start) := by
  obtain ⟨leads, now, _⟩ := Traversal.leads_start starting
  have begun : settings.Ahead 0 0 (Traversal.start starting).now := by
    rw [now]
    exact Settings.Ahead.refl 0
  have visited := Traversal.lockstep_visit frame tree
    (fun node member => ⟨entered node member, rise node member⟩) scope leads begun
  have clock : (Survey.visit scope tree .start).clock = tree.clockAfter scope 0 :=
    Survey.clock_visit tree scope .start
  rw [← clock, Nat.zero_add] at visited
  have free := tree.transitionFree_of_nodes fun node member => (entered node member).2
  refine ⟨?_, ⟨visited.ahead.early, visited.ahead.late⟩, fun instant => ⟨?_, ?_⟩,
    fun property => Traversal.writes_ledger property settings tree scope _,
    Survey.books_inspections free scope .start⟩
  · exact visited.follows.imp fun _ _ follows =>
      ⟨follows.step, follows.scope, follows.ahead.early, follows.ahead.late⟩
  · rw [← List.forall₂_eq_eq_eq, List.forall₂_map_left_iff, List.forall₂_map_right_iff]
    exact visited.follows.imp fun _ _ follows => follows.ahead.eq_of_instant instant
  · exact visited.ahead.eq_of_instant instant

/-- Steps of which two wait for a frame, and which go on side by side. -/
def waitingSteps : Tree Rat :=
  .sequence
    [.animateTo (.millis 100) (.ofEntries [("color", .text "red")]),
      .style (.ofEntries [("width", .text "5px")]),
      .sequence [.animateThrough (.resolved ⟨50, 20, none⟩)
        [.ofEntries [("height", .text "1px")], .ofEntries [("height", .text "9px")]]],
      .group
        [.animateTo (.millis 30) (.ofEntries [("opacity", .number 0)]),
          .animateTo (.millis 60) (.ofEntries [("color", .text "blue")])]]

theorem lockstep_of_waitingSteps :
    0 ≤ (⟨16⟩ : Settings Rat).frameLength ∧
      (Traversal.applications ⟨16⟩ ∅ waitingSteps (.start ∅)).map Application.time =
        [100, 116, 152, 202, 232, 262] ∧
      (waitingSteps.inspections ∅ 0).map (fun inspection => inspection.window.stop) =
        [100, 100, 120, 170, 200, 230] ∧
      (Survey.visit ∅ waitingSteps .start).clock = 230 ∧
      (Traversal.visit ⟨16⟩ ∅ waitingSteps (.start ∅)).now ≤
        (Survey.visit ∅ waitingSteps .start).clock + (3 : Nat) * (16 : Rat) := by
  have frame : 0 ≤ (⟨16⟩ : Settings Rat).frameLength := by decide
  have entered : ∀ node ∈ waitingSteps.nodes, node.kind ≠ .trigger ∧ node.kind ≠ .transition := by
    decide
  have rise : ∀ node ∈ waitingSteps.nodes, node.OffsetsRise := by decide +kernel
  have pauses : Tree.pauses waitingSteps.nodes = 3 := by decide
  obtain ⟨_, ⟨_, late⟩, _⟩ :=
    waitingSteps.compilation_in_lockstep ⟨16⟩ ∅ ∅ frame entered rise
  rw [pauses] at late
  exact ⟨frame, by decide +kernel, by decide +kernel, by decide +kernel, late⟩

end Storyboard
