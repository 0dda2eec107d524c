import Storyboard.Proofs.Compilation.Ledger
import Storyboard.Proofs.Compilation.NormalizedOutput
import Storyboard.Proofs.Tree.Offsets

/-!
# Time slots

A visit takes place in a slot of time, from the clock of the walk on entry to the clock on exit.
It leaves alone every timeline but the one that it begins on; the keyframes that it adds there, and
the timelines that it opens, lie in the slot (`Traversal.Slot`). Between two steps the walk is on
the timeline opened last, and no keyframe of that timeline is behind the cursor
(`Traversal.Leads`).

The branches of a group all begin at the clock of the group, on forks of the timeline on which it
was entered, and the group ends at the furthest clock that a branch reaches. A keyframe list that
goes back and forth stays within the duration of its step. Both are parts of a visit that has not
ended yet (`Traversal.Underway`).
-/

set_option autoImplicit false

namespace Storyboard

/-! ## Skeletons in a slot -/

namespace Timeline.Skeleton

/-- No keyframe is behind the cursor. -/
def Foremost (skeleton : Skeleton Rat) : Prop :=
  ∀ time ∈ skeleton.times, time ≤ skeleton.cursor

/-- The span starts at an absolute time or later, and no keyframe is behind another time. -/
structure Within (low high : Rat) (skeleton : Skeleton Rat) : Prop where
  start : low ≤ skeleton.start
  times : ∀ time ∈ skeleton.times, skeleton.start + time ≤ high

/-- Keyframes were added to a span between two absolute times. -/
structure Prolonged (low high : Rat) (before after : Skeleton Rat) : Prop where
  start : after.start = before.start
  times : ∃ added, after.times = before.times ++ added ∧
    ∀ time ∈ added, low ≤ before.start + time ∧ before.start + time ≤ high

theorem within_blank (start : Rat) (inherited : Styles Rat) :
    (Timeline.blank start inherited).skeleton.Within start start := by
  refine ⟨le_refl start, fun time member => ?_⟩
  rw [List.mem_singleton.1 member]
  exact (add_zero start).le

theorem Within.widen {low high further : Rat} {skeleton : Skeleton Rat}
    (inside : skeleton.Within low high) (later : high ≤ further) :
    skeleton.Within low further :=
  ⟨inside.start, fun time member => (inside.times time member).trans later⟩

theorem Prolonged.refl (low high : Rat) (skeleton : Skeleton Rat) :
    Prolonged low high skeleton skeleton :=
  ⟨rfl, [], (List.append_nil _).symm, fun _ member => absurd member List.not_mem_nil⟩

theorem Prolonged.trans {low middle high : Rat} {before between after : Skeleton Rat}
    (earlier : Prolonged low middle before between) (next : Prolonged middle high between after)
    (lower : low ≤ middle) (upper : middle ≤ high) : Prolonged low high before after := by
  obtain ⟨start, first, added, inside⟩ := earlier
  obtain ⟨same, second, more, further⟩ := next
  refine ⟨same.trans start, first ++ second, ?_, ?_⟩
  · rw [more, added, List.append_assoc]
  · intro time member
    rcases List.mem_append.1 member with early | late
    · obtain ⟨low, high⟩ := inside time early
      exact ⟨low, high.trans upper⟩
    · obtain ⟨low, high⟩ := further time late
      rw [start] at low high
      exact ⟨lower.trans low, high⟩

/-- A span within a slot that was prolonged is within the longer slot. -/
theorem Within.prolonged {low middle high : Rat} {before after : Skeleton Rat}
    (inside : before.Within low middle) (prolonged : Prolonged middle high before after)
    (upper : middle ≤ high) : after.Within low high := by
  obtain ⟨start, added, times, further⟩ := prolonged
  refine ⟨start ▸ inside.start, fun time member => ?_⟩
  rw [times] at member
  rw [start]
  rcases List.mem_append.1 member with early | late
  · exact (inside.times time early).trans upper
  · exact (further time late).2

theorem Foremost.seek {skeleton : Skeleton Rat} {time : Rat} (foremost : skeleton.Foremost)
    (onward : skeleton.cursor ≤ time) :
    (skeleton.seek time).Foremost := by
  intro opened member
  obtain ⟨added, times, there⟩ := skeleton.times_seek time
  rw [cursor_seek]
  rw [times] at member
  rcases List.mem_append.1 member with early | late
  · exact (foremost opened early).trans onward
  · exact (there opened late).le

end Timeline.Skeleton

/-! ## The slot of a visit -/

namespace Traversal

/-- The walk is on the timeline opened last, and no keyframe of it is behind the cursor. -/
structure Leads (walk : Traversal Rat) : Prop where
  timed : walk.stage.WellTimed
  youngest : walk.stage.size = walk.current + 1
  foremost : (walk.stage.skeleton walk.current).Foremost

theorem Leads.placed {walk : Traversal Rat} (leads : walk.Leads) : walk.Placed := by
  rw [Placed, leads.youngest]
  exact Nat.lt_succ_self walk.current

theorem Leads.cursor_nonneg {walk : Traversal Rat} (leads : walk.Leads) :
    0 ≤ (walk.stage.timeline walk.current).cursor :=
  (leads.timed.timeline walk.current).cursor_nonneg

/-- What happened between two states of the walk lies between their clocks. -/
structure Slot (before after : Traversal Rat) : Prop where
  placed : before.Placed
  leads : after.Leads
  grows : before.stage.size ≤ after.stage.size
  own : after.current = before.current ∨ before.stage.size ≤ after.current
  later : before.now ≤ after.now
  /-- The other timelines are as they were. -/
  kept : ∀ id, id < before.stage.size → id ≠ before.current →
    after.stage.skeleton id = before.stage.skeleton id
  /-- Keyframes were added on the timeline that was current in the beginning. -/
  prolonged : (before.stage.skeleton before.current).Prolonged before.now after.now
    (after.stage.skeleton before.current)
  /-- Timelines were opened. -/
  opened : ∀ id, before.stage.size ≤ id → id < after.stage.size →
    (after.stage.skeleton id).Within before.now after.now

namespace Slot

variable {before middle after : Traversal Rat}

theorem refl (leads : before.Leads) : Slot before before where
  placed := leads.placed
  leads := leads
  grows := Nat.le_refl _
  own := .inl rfl
  later := le_refl _
  kept _ _ _ := rfl
  prolonged := .refl _ _ _
  opened _ low high := absurd high (Nat.not_lt_of_le low)

theorem trans (earlier : Slot before middle) (next : Slot middle after) : Slot before after where
  placed := earlier.placed
  leads := next.leads
  grows := Nat.le_trans earlier.grows next.grows
  own := by
    rcases next.own with same | opened
    · rw [same]
      exact earlier.own
    · exact .inr (Nat.le_trans earlier.grows opened)
  later := earlier.later.trans next.later
  kept := by
    intro id bound apart
    have elsewhere : id ≠ middle.current := by
      rcases earlier.own with same | opened
      · exact same ▸ apart
      · exact Nat.ne_of_lt (Nat.lt_of_lt_of_le bound opened)
    rw [next.kept id (Nat.lt_of_lt_of_le bound earlier.grows) elsewhere]
    exact earlier.kept id bound apart
  prolonged := by
    refine earlier.prolonged.trans ?_ earlier.later next.later
    by_cases same : before.current = middle.current
    · rw [same]
      exact next.prolonged
    · rw [next.kept _ (Nat.lt_of_lt_of_le earlier.placed earlier.grows) same]
      exact .refl _ _ _
  opened := by
    intro id low high
    by_cases early : id < middle.stage.size
    · have inside := earlier.opened id low early
      by_cases same : id = middle.current
      · subst same
        exact inside.prolonged next.prolonged next.later
      · rw [next.kept id early same]
        exact inside.widen next.later
    · have inside := next.opened id (Nat.le_of_not_lt early) high
      exact ⟨earlier.later.trans inside.start, inside.times⟩

/-- It makes no difference which kind of node is remembered. -/
theorem remember (slot : Slot before after) (kind : NodeKind) : Slot before (after.after kind) :=
  ⟨slot.placed, ⟨slot.leads.timed, slot.leads.youngest, slot.leads.foremost⟩, slot.grows, slot.own,
    slot.later, slot.kept, slot.prolonged, slot.opened⟩

end Slot

/-! ### Operations on the current timeline -/

section Operations

variable {walk : Traversal Rat} {settings : Settings Rat}

/-- What keeps every skeleton takes no time. -/
theorem slot_still {before after : Traversal Rat} (leads : before.Leads)
    (same : after.stage.skeletons = before.stage.skeletons)
    (stays : after.current = before.current) : Slot before after where
  placed := leads.placed
  leads := by
    refine ⟨?_, ?_, ?_⟩
    · rw [Stage.WellTimed, same]
      exact leads.timed
    · rw [Stage.size_eq_of_skeletons same, stays]
      exact leads.youngest
    · rw [stays, Stage.skeleton_eq_of_skeletons same]
      exact leads.foremost
  grows := (Stage.size_eq_of_skeletons same).ge
  own := .inl stays
  later := (now_eq same stays).ge
  kept id _ _ := Stage.skeleton_eq_of_skeletons same id
  prolonged := by
    rw [Stage.skeleton_eq_of_skeletons same]
    exact .refl _ _ _
  opened id low high := by
    rw [Stage.size_eq_of_skeletons same] at high
    exact absurd high (Nat.not_lt_of_le low)

theorem slot_seek (leads : walk.Leads) {time : Timeline Rat → Rat}
    (onward : (walk.stage.timeline walk.current).cursor ≤
      time (walk.stage.timeline walk.current))
    (timed : (walk.modifyCurrent fun timeline => timeline.seek (time timeline)).stage.WellTimed) :
    Slot walk (walk.modifyCurrent fun timeline => timeline.seek (time timeline)) := by
  have size : (walk.modifyCurrent fun timeline => timeline.seek (time timeline)).stage.size =
      walk.stage.size := Stage.size_modify _ _ _
  have changed := timeline_modifyCurrent leads.placed fun timeline =>
    timeline.seek (time timeline)
  have here : (walk.modifyCurrent fun timeline =>
      timeline.seek (time timeline)).stage.skeleton walk.current =
        (walk.stage.skeleton walk.current).seek (time (walk.stage.timeline walk.current)) := by
    rw [Stage.skeleton, changed, Timeline.skeleton_seek]
    rfl
  have now : (walk.modifyCurrent fun timeline => timeline.seek (time timeline)).now =
      (walk.stage.skeleton walk.current).start + time (walk.stage.timeline walk.current) := by
    refine (congrArg Timeline.now changed).trans ?_
    exact Timeline.now_seek _ _
  have later : walk.now ≤ (walk.modifyCurrent fun timeline => timeline.seek (time timeline)).now := by
    rw [now]
    exact add_le_add_right onward _
  refine ⟨leads.placed, ⟨timed, ?_, ?_⟩, size.ge, .inl rfl, later, ?_, ?_, ?_⟩
  · rw [size]
    exact leads.youngest
  · show ((walk.modifyCurrent _).stage.skeleton walk.current).Foremost
    rw [here]
    exact leads.foremost.seek onward
  · intro id _ apart
    exact congrArg Timeline.skeleton
      ((Stage.timeline_modify leads.placed _ id).trans (if_neg apart))
  · rw [here]
    obtain ⟨added, times, there⟩ := (walk.stage.skeleton walk.current).times_seek
      (time (walk.stage.timeline walk.current))
    refine ⟨Timeline.Skeleton.start_seek _ _, added, times, fun opened member => ?_⟩
    rw [there opened member, ← now]
    exact ⟨later, le_refl _⟩
  · intro id low high
    rw [size] at high
    exact absurd high (Nat.not_lt_of_le low)

theorem slot_pass (leads : walk.Leads) {time : Rat} (nonneg : 0 ≤ time) :
    Slot walk (walk.pass time) := by
  refine slot_seek leads ?_ ?_
  · rw [Scalar.larger_exact]
    exact le_max_of_le_left (le_add_of_nonneg_right nonneg)
  · exact leads.timed.modify _ fun timeline timed =>
      Timeline.wellTimed_forwardTo timed (timeline.cursor + time)

theorem slot_frame (frame : 0 ≤ settings.frameLength) (leads : walk.Leads) :
    Slot walk (walk.modifyCurrent fun timeline => timeline.forwardFrame settings.frameLength) := by
  refine slot_seek leads (le_add_of_nonneg_right frame) ?_
  exact leads.timed.modify _ fun _ timed => Timeline.wellTimed_forwardFrame timed frame

theorem slot_writeStyle (leads : walk.Leads) (scope : Params Rat) (step : StyleStep Rat)
    (easing : Option String) : Slot walk (walk.writeStyle scope step easing) :=
  slot_still leads (Stage.skeletons_write _ _ _ _) rfl

theorem slot_snapshot (leads : walk.Leads) : Slot walk (walk.modifyCurrent Timeline.snapshot) :=
  slot_still leads (Stage.skeletons_modify _ _ Timeline.skeleton_snapshot) rfl

theorem slot_approachStyle (frame : 0 ≤ settings.frameLength) (leads : walk.Leads) :
    Slot walk (walk.approachStyle settings) := by
  unfold approachStyle
  split
  · exact slot_frame frame leads
  · exact .refl leads

/-- The snapshot with which a sequence may begin moves no cursor. -/
theorem skeletons_frameSnapshot (walk : Traversal Rat) (settings : Settings Rat) :
    (walk.modifyCurrent fun timeline =>
        (timeline.forwardFrame settings.frameLength).snapshot).stage.skeletons =
      (walk.modifyCurrent fun timeline =>
        timeline.forwardFrame settings.frameLength).stage.skeletons := by
  have both := Stage.modify_modify walk.stage walk.current
    (fun timeline => timeline.forwardFrame settings.frameLength) Timeline.snapshot
  exact (congrArg Stage.skeletons both.symm).trans
    (Stage.skeletons_modify _ _ Timeline.skeleton_snapshot)

theorem slot_enterSequence (frame : 0 ≤ settings.frameLength) (leads : walk.Leads) :
    Slot walk (walk.enterSequence settings) := by
  unfold enterSequence
  split
  · have moved := slot_frame frame leads
    exact moved.trans (slot_still moved.leads (skeletons_frameSnapshot walk settings) rfl)
  · exact .refl leads

theorem slot_awaitPayload (leads : walk.Leads) (scope : Params Rat) (timing : Timing Rat) :
    Slot walk (walk.awaitPayload scope timing) := by
  have reported : Slot walk (walk.report (timing.resolve scope).2) := slot_still leads rfl rfl
  unfold awaitPayload wait
  split
  · have passed := slot_pass reported.leads (timing.nonnegative_resolve scope).delay
    exact (reported.trans passed).trans (slot_snapshot passed.leads)
  · exact reported

end Operations

/-! ### Visits that have not ended -/

/-- From the entry of a visit on, timelines were opened between the clock of the entry and a
furthest time, and all others are as they were. -/
structure Underway (entry : Traversal Rat) (furthest : Rat) (stage : Stage Rat) : Prop where
  entered : entry.Leads
  timed : stage.WellTimed
  grows : entry.stage.size ≤ stage.size
  reached : entry.now ≤ furthest
  kept : ∀ id, id < entry.stage.size → stage.skeleton id = entry.stage.skeleton id
  opened : ∀ id, entry.stage.size ≤ id → id < stage.size →
    (stage.skeleton id).Within entry.now furthest

namespace Underway

variable {entry walk forked visited : Traversal Rat} {furthest : Rat} {stage base : Stage Rat}

theorem refl (entered : entry.Leads) : Underway entry entry.now entry.stage where
  entered := entered
  timed := entered.timed
  grows := Nat.le_refl _
  reached := le_refl _
  kept _ _ := rfl
  opened _ low high := absurd high (Nat.not_lt_of_le low)

/-- The timeline on which the visit began stands where it stood. -/
theorem now_entry (underway : Underway entry furthest stage) : stage.now entry.current = entry.now :=
  congrArg (fun skeleton => skeleton.start + skeleton.cursor)
    (underway.kept entry.current underway.entered.placed)

/-- A blank timeline is opened behind all others. -/
theorem leads_of_push (timed : base.WellTimed) {start : Rat} (nonneg : 0 ≤ start)
    {inherited : Styles Rat} (pushed : walk.stage = base.push (Timeline.blank start inherited))
    (current : walk.current = base.size) :
    walk.Leads ∧ walk.now = start ∧
      walk.stage.skeleton walk.current = (Timeline.blank start inherited).skeleton := by
  have here : walk.stage.skeleton walk.current = (Timeline.blank start inherited).skeleton := by
    rw [pushed, current, Stage.skeleton_push, if_pos rfl]
  refine ⟨⟨?_, ?_, ?_⟩, ?_, here⟩
  · rw [pushed]
    exact timed.push (Timeline.wellTimed_blank nonneg inherited)
  · rw [pushed, current, Stage.size_push]
  · rw [here]
    intro time member
    exact (List.mem_singleton.1 member).le
  · have now : walk.now = (walk.stage.skeleton walk.current).start +
        (walk.stage.skeleton walk.current).cursor := rfl
    rw [now, here]
    exact add_zero start

/-- A visit on a fork of its own, from the clock of the entry on, is one more part. -/
theorem branch (underway : Underway entry furthest base) {inherited : Styles Rat}
    (pushed : forked.stage = base.push (Timeline.blank entry.now inherited))
    (current : forked.current = base.size) (slot : Slot forked visited) :
    Underway entry (Scalar.larger furthest visited.now) visited.stage := by
  obtain ⟨leads, now, here⟩ := leads_of_push underway.timed
    (underway.entered.timed.now_nonneg _) pushed current
  have size : forked.stage.size = base.size + 1 := by
    rw [pushed, Stage.size_push]
  have before : ∀ id, id < base.size → visited.stage.skeleton id = base.skeleton id := by
    intro id bound
    rw [slot.kept id (by omega) (by omega), pushed, Stage.skeleton_push,
      if_neg (Nat.ne_of_lt bound)]
  have further : visited.now ≤ Scalar.larger furthest visited.now := by
    rw [Scalar.larger_exact]
    exact le_max_right _ _
  have upper : furthest ≤ Scalar.larger furthest visited.now := by
    rw [Scalar.larger_exact]
    exact le_max_left _ _
  have fresh : (forked.stage.skeleton forked.current).Within entry.now entry.now :=
    here ▸ Timeline.Skeleton.within_blank entry.now inherited
  have prolonged := slot.prolonged
  have later := slot.later
  rw [now] at prolonged later
  refine ⟨underway.entered, slot.leads.timed, ?_, underway.reached.trans upper, ?_, ?_⟩
  · exact Nat.le_trans underway.grows (Nat.le_trans (by omega) slot.grows)
  · intro id bound
    rw [before id (Nat.lt_of_lt_of_le bound underway.grows)]
    exact underway.kept id bound
  · intro id low high
    rcases Nat.lt_trichotomy id base.size with early | same | late
    · rw [before id early]
      exact (underway.opened id low early).widen upper
    · rw [same, ← current]
      exact (fresh.prolonged prolonged later).widen further
    · have opened := slot.opened id (by omega) high
      rw [now] at opened
      exact opened.widen further

/-- The fork of a branch begins at the clock of the entry. -/
theorem leads_enterBranch (underway : Underway entry furthest walk.stage) :
    (entry.enterBranch walk).Leads ∧ (entry.enterBranch walk).now = entry.now := by
  have pushed : (entry.enterBranch walk).stage = walk.stage.push (Timeline.blank
      (walk.stage.now entry.current) (walk.stage.timeline entry.current).effective) := rfl
  rw [underway.now_entry] at pushed
  obtain ⟨leads, now, _⟩ := leads_of_push underway.timed (underway.entered.timed.now_nonneg _)
    pushed rfl
  exact ⟨leads, now⟩

theorem visitBranch (underway : Underway entry furthest walk.stage)
    (slot : Slot (entry.enterBranch walk) visited) :
    Underway entry (Scalar.larger furthest visited.now) visited.stage := by
  have pushed : (entry.enterBranch walk).stage = walk.stage.push (Timeline.blank
      (walk.stage.now entry.current) (walk.stage.timeline entry.current).effective) := rfl
  rw [underway.now_entry] at pushed
  exact underway.branch pushed rfl slot

/-- The visit ends on a blank timeline at the furthest time. -/
theorem leave (underway : Underway entry furthest stage)
    (same : base.skeletons = stage.skeletons) {inherited : Styles Rat}
    (pushed : walk.stage = base.push (Timeline.blank furthest inherited))
    (current : walk.current = base.size) : Slot entry walk ∧ walk.now = furthest := by
  have timed : base.WellTimed := by
    rw [Stage.WellTimed, same]
    exact underway.timed
  have nonneg : 0 ≤ furthest := (underway.entered.timed.now_nonneg _).trans underway.reached
  obtain ⟨leads, now, here⟩ := leads_of_push timed nonneg pushed current
  have size : base.size = stage.size := Stage.size_eq_of_skeletons same
  have grows := underway.grows
  have before : ∀ id, id < stage.size → walk.stage.skeleton id = stage.skeleton id := by
    intro id bound
    rw [pushed, Stage.skeleton_push, if_neg (by omega), Stage.skeleton_eq_of_skeletons same]
  have total : walk.stage.size = stage.size + 1 := by
    rw [pushed, Stage.size_push, size]
  refine ⟨⟨underway.entered.placed, leads, by omega, .inr (by omega), now.symm ▸ underway.reached,
    ?_, ?_, ?_⟩, now⟩
  · intro id bound _
    rw [before id (by omega)]
    exact underway.kept id bound
  · rw [before _ (Nat.lt_of_lt_of_le underway.entered.placed grows),
      underway.kept _ underway.entered.placed]
    exact .refl _ _ _
  · intro id low high
    rw [now]
    by_cases last : id = stage.size
    · rw [last, ← size, ← current, here]
      have inside := Timeline.Skeleton.within_blank furthest inherited
      exact ⟨underway.reached, inside.times⟩
    · rw [before id (by omega)]
      exact underway.opened id low (by omega)

/-- A group is left at the furthest time. -/
theorem leaveGroup (underway : Underway entry furthest walk.stage) (ends : List Nat) :
    Slot entry (entry.leaveGroup ends furthest walk) ∧
      (entry.leaveGroup ends furthest walk).now = furthest := by
  have absorbed : (ends.foldl (fun stage source => stage.absorb entry.current source)
      walk.stage).skeletons = walk.stage.skeletons :=
    foldl_keeps Stage.skeletons (fun stage source => stage.skeletons_absorb entry.current source)
      ends walk.stage
  exact underway.leave absorbed rfl rfl

end Underway

/-! ### Keyframe lists -/

section Keyframes

variable {settings : Settings Rat}

/-- The steps of a keyframe list stay on their timeline. -/
theorem stays_writeKeyframes (scope : Params Rat) (duration : Rat) :
    ∀ (steps : List (StyleStep Rat × Rat)) {walk : Traversal Rat}, walk.Placed →
      (writeKeyframes scope duration steps walk).current = walk.current ∧
        (writeKeyframes scope duration steps walk).stage.size = walk.stage.size ∧
          ∀ id ≠ walk.current,
            (writeKeyframes scope duration steps walk).stage.skeleton id = walk.stage.skeleton id
  | [], _, _ => ⟨rfl, rfl, fun _ _ => rfl⟩
  | step :: rest, walk, placed => by
    obtain ⟨stays, grows, others⟩ := stays_writeKeyframes scope duration rest
      (placed_writeKeyframe placed scope duration step)
    rw [writeKeyframes_cons]
    refine ⟨stays, grows.trans (size_writeKeyframe scope duration step), fun id apart => ?_⟩
    rw [others id apart, skeleton_writeKeyframe placed, if_neg apart]

/-- The steps of a keyframe list open keyframes within the duration. -/
theorem within_writeKeyframes (scope : Params Rat) {duration : Rat} (nonneg : 0 ≤ duration)
    {low : Rat} :
    ∀ (steps : List (StyleStep Rat × Rat)) {walk : Traversal Rat}, walk.Placed →
      (∀ step ∈ steps, step.2 ≤ 1) → (walk.stage.skeleton walk.current).start = low →
        (walk.stage.skeleton walk.current).Within low (low + duration) →
          ((writeKeyframes scope duration steps walk).stage.skeleton walk.current).Within low
            (low + duration)
  | [], _, _, _, _, inside => inside
  | step :: rest, walk, placed, unit, start, inside => by
    have bounded : Scalar.larger (step.2 * duration) 0 ≤ duration := by
      rw [Scalar.larger_exact]
      exact max_le (mul_le_of_le_one_left nonneg (unit _ List.mem_cons_self)) nonneg
    have here : (walk.writeKeyframe scope duration step).stage.skeleton walk.current =
        (walk.stage.skeleton walk.current).seek (Scalar.larger (step.2 * duration) 0) := by
      rw [skeleton_writeKeyframe placed, if_pos rfl]
    refine within_writeKeyframes scope nonneg rest (placed_writeKeyframe placed scope duration step)
      (fun step member => unit step (List.mem_cons_of_mem _ member)) ?_ ?_
    · show ((walk.writeKeyframe scope duration step).stage.skeleton walk.current).start = low
      rw [here, Timeline.Skeleton.start_seek, start]
    · show ((walk.writeKeyframe scope duration step).stage.skeleton walk.current).Within low _
      rw [here]
      obtain ⟨added, times, there⟩ := (walk.stage.skeleton walk.current).times_seek
        (Scalar.larger (step.2 * duration) 0)
      refine ⟨?_, fun time member => ?_⟩
      · rw [Timeline.Skeleton.start_seek]
        exact inside.start
      · rw [Timeline.Skeleton.start_seek]
        rw [times] at member
        rcases List.mem_append.1 member with early | late
        · exact inside.times time early
        · rw [there time late, start]
          exact add_le_add_right bounded low

/-- A keyframe list runs from the clock of its step to the end of the duration. -/
theorem underway_writeKeyframes (frame : 0 ≤ settings.frameLength) {walk : Traversal Rat}
    (leads : walk.Leads) (scope : Params Rat) (steps : List (StyleStep Rat)) (timing : Timing Rat) :
    Underway walk (walk.now + (timing.resolve scope).1.duration)
      (writeKeyframes scope (timing.resolve scope).1.duration (steps.zip (keyframeOffsets steps))
        (walk.forkKeyframes (timing.resolve scope).1)).stage := by
  have nonneg := (timing.nonnegative_resolve scope).duration
  have invariant := Stage.wellTimed_invariant frame
  have size := size_forkKeyframes walk (timing.resolve scope).1
  have placed := placed_forkKeyframes walk (timing.resolve scope).1
  have timed : (walk.forkKeyframes (timing.resolve scope).1).stage.WellTimed :=
    invariant.ease _ _ _ (branch_invariant invariant leads.timed)
  have unit : ∀ step ∈ steps.zip (keyframeOffsets steps), step.2 ≤ 1 := fun step member =>
    (keyframeOffsets_mem_unit steps step.2 (List.of_mem_zip member).2).2
  have blank : (walk.forkKeyframes (timing.resolve scope).1).stage.skeleton walk.stage.size =
      (Timeline.blank walk.now ∅).skeleton := skeleton_forked walk (timing.resolve scope).1
  have fresh : ((walk.forkKeyframes (timing.resolve scope).1).stage.skeleton
      walk.stage.size).Within walk.now (walk.now + (timing.resolve scope).1.duration) := by
    rw [blank]
    exact (Timeline.Skeleton.within_blank walk.now ∅).widen (le_add_of_nonneg_right nonneg)
  obtain ⟨_, grows, others⟩ := stays_writeKeyframes scope (timing.resolve scope).1.duration
    (steps.zip (keyframeOffsets steps)) placed
  refine ⟨leads, writeKeyframes_invariant invariant scope _ _ timed, by omega,
    le_add_of_nonneg_right nonneg, ?_, ?_⟩
  · intro id bound
    rw [others id (Nat.ne_of_lt bound), skeleton_forkKeyframes, if_neg (Nat.ne_of_lt bound)]
  · intro id low high
    have last : id = walk.stage.size := by omega
    rw [last]
    exact within_writeKeyframes scope nonneg _ placed unit (congrArg Timeline.Skeleton.start blank)
      fresh

end Keyframes

/-! ### Visits -/

section Visits

variable {settings : Settings Rat}

/-- Behind a keyframe list the walk goes on at the end of the duration. -/
theorem slot_runKeyframes (frame : 0 ≤ settings.frameLength) {walk : Traversal Rat}
    (leads : walk.Leads) (scope : Params Rat) (steps : List (StyleStep Rat)) (timing : Timing Rat) :
    Slot walk (walk.runKeyframes scope steps (timing.resolve scope).1) ∧
      (walk.runKeyframes scope steps (timing.resolve scope).1).now =
        walk.now + (timing.resolve scope).1.duration :=
  (underway_writeKeyframes frame leads scope steps timing).leave (Stage.skeletons_absorb _ _ _) rfl
    rfl

theorem slot_runAnimate (frame : 0 ≤ settings.frameLength) {walk : Traversal Rat}
    (leads : walk.Leads) (scope : Params Rat) (timing : Timing Rat)
    (payload : Option (Payload Rat)) : Slot walk (walk.runAnimate scope timing payload) := by
  have waited := slot_awaitPayload leads scope timing
  have passed := slot_pass waited.leads (timing.nonnegative_resolve scope).duration
  match payload with
  | none =>
    have wrote : Slot _ ((walk.awaitPayload scope timing).runEmpty (timing.resolve scope).1) :=
      slot_still passed.leads (Stage.skeletons_writeEmptyStep _ _ _) rfl
    rw [runAnimate_empty]
    exact (waited.trans passed).trans wrote
  | some (.keyframes steps) =>
    rw [runAnimate_keyframes]
    exact waited.trans (slot_runKeyframes frame waited.leads scope steps timing).1
  | some (.style step) =>
    rw [runAnimate_style]
    exact (waited.trans passed).trans (slot_writeStyle passed.leads scope step _)

/-- A walk that goes on with a blank timeline where it stands takes no time. -/
theorem slot_continue {walk : Traversal Rat} (leads : walk.Leads) :
    Slot walk (walk.continueAt none) ∧ (walk.continueAt none).now = walk.now :=
  (Underway.refl leads).leave rfl rfl rfl

mutual

/-- **Every visit stays in its slot.** -/
theorem slot_visit (frame : 0 ≤ settings.frameLength) :
    ∀ (tree : Tree Rat) (scope : Params Rat) {walk : Traversal Rat}, walk.Leads →
      Slot walk (visit settings scope tree walk)
  | .sequence steps, scope, walk, leads => by
    have entered := slot_enterSequence frame leads
    have visited := entered.trans (slot_visitSteps frame steps scope entered.leads)
    simp only [visit]
    split
    · exact (visited.trans (slot_continue visited.leads).1).remember .sequence
    · exact visited.remember .sequence
  | .group branches, scope, walk, leads => by
    simp only [visit]
    exact (slot_visitBranches frame branches scope [] (.refl leads)).remember .group
  | .animate timing payload, scope, _, leads =>
    (slot_runAnimate frame leads scope timing payload).remember .animate
  | .style step, scope, _, leads => by
    have moved := slot_approachStyle frame leads
    exact (moved.trans (slot_writeStyle moved.leads scope step none)).remember .style
  | .reference animation defaults, scope, _, leads => by
    simp only [visit]
    exact (slot_visit frame animation _ leads).remember .reference
  | .animateRef animation defaults overrides, scope, _, leads => by
    simp only [visit]
    exact (slot_visit frame animation _ leads).remember .animateRef
  | .state .., _, _, leads => (Slot.refl leads).remember .state
  | .transition .., _, _, leads => (Slot.refl leads).remember .transition
  | .keyframes .., _, _, leads => (Slot.refl leads).remember .keyframes
  | .trigger .., _, _, leads => (Slot.refl leads).remember .trigger
  | .animateChild .., _, _, leads => (Slot.refl leads).remember .animateChild
  | .query .., _, _, leads => (Slot.refl leads).remember .query
  | .stagger .., _, _, leads => (Slot.refl leads).remember .stagger

theorem slot_visitSteps (frame : 0 ≤ settings.frameLength) :
    ∀ (steps : List (Tree Rat)) (scope : Params Rat) {walk : Traversal Rat}, walk.Leads →
      Slot walk (visitSteps settings scope steps walk)
  | [], _, _, leads => .refl leads
  | step :: rest, scope, walk, leads => by
    have visited := slot_visit frame step scope leads
    rw [visitSteps]
    exact visited.trans (slot_visitSteps frame rest scope visited.leads)

theorem slot_visitBranches (frame : 0 ≤ settings.frameLength) :
    ∀ (branches : List (Tree Rat)) (scope : Params Rat) {entry walk : Traversal Rat}
      {furthest : Rat} (ends : List Nat), Underway entry furthest walk.stage →
        Slot entry (visitBranches settings scope entry branches ends furthest walk)
  | [], _, _, _, _, ends, underway => (underway.leaveGroup ends).1
  | branch :: rest, scope, entry, walk, furthest, ends, underway => by
    have visited := slot_visit frame branch scope underway.leads_enterBranch.1
    exact slot_visitBranches frame rest scope _ (underway.visitBranch visited)

end

end Visits

/-- A compilation starts at zero, on a timeline that has one keyframe. -/
theorem leads_start (starting : Styles Rat) :
    (start starting).Leads ∧ (start starting).now = 0 ∧
      ((start starting).stage.skeleton 0).Within 0 0 := by
  have empty : (Stage.empty : Stage Rat).WellTimed := fun _ member =>
    absurd member List.not_mem_nil
  have pushed : (beginning : Traversal Rat).stage =
      Stage.empty.push (Timeline.blank (0 : Rat) ∅) := rfl
  obtain ⟨leads, now, blank⟩ := Underway.leads_of_push empty (le_refl 0) pushed rfl
  have same : (start starting).stage.skeletons = (beginning : Traversal Rat).stage.skeletons :=
    Stage.skeletons_write _ _ _ _
  refine ⟨(slot_still leads same rfl).leads, (now_eq same rfl).trans now, ?_⟩
  rw [Stage.skeleton_eq_of_skeletons same]
  exact blank ▸ Timeline.Skeleton.within_blank 0 ∅

end Traversal

end Storyboard
