import Storyboard.Proofs.Compilation.LeftTimelines
import Storyboard.Proofs.Tree.Properties

/-!
# Keyframe lists in absolute time

A keyframe list is written on a fork of its own, from the time on at which the delay of its step has
passed. The positions of its steps are parts of the duration, and what is emitted are parts of the
length of the fork; the two differ where the last position is below one. In absolute time they
agree: a step at a position stands where that part of the duration has passed
(`Tree.compile_places_keyframes`).

The fork is opened and left within the animated step, so what is emitted is what the steps wrote
(`Tree.timeline_landedStage`). Steps that share a position share a keyframe, which shows what the
later of them wrote. Behind the list the walk goes on at the end of the duration, wherever the last
position is.
-/

set_option autoImplicit false

namespace Storyboard

/-! ## The timeline of a keyframe list -/

/-- The timeline holds the steps of a keyframe list, each at a part of a duration. -/
structure Timeline.Plays (scope : Params Rat) (start : Rat) (timings : Timings Rat)
    (steps : List (StyleStep Rat × Rat)) (timeline : Timeline Rat) : Prop where
  timed : timeline.skeleton.WellTimed
  start : timeline.start = start
  easing : timeline.easing = timings.easing
  times : ∀ time, time ∈ timeline.times ↔
    time = 0 ∨ ∃ step ∈ steps, time = step.2 * timings.duration
  shows : ∀ earlier step later, steps = earlier ++ step :: later →
    ∀ frame ∈ timeline.frames, frame.time = step.2 * timings.duration →
      ∀ property value, property ≠ offsetKey → property ≠ easingKey →
        step.1.merged.get? property = some value →
          (∀ other ∈ later, other.2 = step.2 → other.1.merged.contains property = false) →
            frame.styles.get? property = some (value.fill scope).1

namespace Traversal

section Keyframes

variable (scope : Params Rat) {duration : Rat} (nonneg : 0 ≤ duration)

/-- The steps of a keyframe list change no header. -/
theorem header_writeKeyframes (duration : Rat) (id : Nat) :
    ∀ (steps : List (StyleStep Rat × Rat)) (walk : Traversal Rat),
      ((writeKeyframes scope duration steps walk).stage.timeline id).header =
        (walk.stage.timeline id).header
  | [], _ => rfl
  | (step, offset) :: rest, walk => by
    have moved := walk.stage.header_modify walk.current id fun timeline =>
      timeline.header_seek (Scalar.larger (offset * duration) 0)
    have wrote := (walk.stage.modify walk.current fun timeline =>
      timeline.forwardTo (offset * duration)).header_write walk.current id (step.fill scope).styles
        (Option.or none (step.fill scope).easing)
    exact (header_writeKeyframes duration id rest _).trans (wrote.trans moved)

include nonneg

/-- A step of a keyframe list moves the cursor to its part of the duration. -/
theorem skeleton_step {walk : Traversal Rat} (placed : walk.Placed) {step : StyleStep Rat × Rat}
    (positive : 0 ≤ step.2) :
    (walk.writeKeyframe scope duration step).stage.skeleton walk.current =
      (walk.stage.skeleton walk.current).seek (step.2 * duration) := by
  rw [skeleton_writeKeyframe placed, if_pos rfl, Scalar.larger_exact,
    max_eq_left (mul_nonneg positive nonneg)]

/-- The steps of a keyframe list open keyframes at their parts of the duration, and no others. -/
theorem span_writeKeyframes :
    ∀ (steps : List (StyleStep Rat × Rat)) {walk : Traversal Rat}, walk.Placed →
      (∀ step ∈ steps, 0 ≤ step.2) →
        ((writeKeyframes scope duration steps walk).stage.skeleton walk.current).start =
            (walk.stage.skeleton walk.current).start ∧
          ∀ time,
            time ∈ ((writeKeyframes scope duration steps walk).stage.skeleton walk.current).times ↔
              time ∈ (walk.stage.skeleton walk.current).times ∨
                ∃ step ∈ steps, time = step.2 * duration
  | [], _, _, _ => ⟨rfl, fun time => by simp [writeKeyframes]⟩
  | step :: rest, walk, placed, positive => by
    obtain ⟨start, times⟩ := span_writeKeyframes rest
      (placed_writeKeyframe placed scope duration step)
      (fun step member => positive step (List.mem_cons_of_mem _ member))
    have stays : (walk.writeKeyframe scope duration step).current = walk.current := rfl
    have moved := skeleton_step scope nonneg placed (positive step List.mem_cons_self)
    rw [stays, moved] at start times
    rw [writeKeyframes_cons]
    refine ⟨start.trans (Timeline.Skeleton.start_seek _ _), fun time => ?_⟩
    rw [List.exists_mem_cons_iff, ← or_assoc,
      ← Timeline.Skeleton.mem_times_seek _ fun _ _ => beq_iff_eq.1]
    exact times time

/-- The imprints of a keyframe list lie on one timeline, at the parts of the duration. -/
theorem keyframeImprints_eq :
    ∀ (steps : List (StyleStep Rat × Rat)) {walk : Traversal Rat}, walk.Placed →
      (∀ step ∈ steps, 0 ≤ step.2) →
        keyframeImprints scope duration steps walk = steps.map fun step =>
          ⟨walk.current, (walk.stage.skeleton walk.current).start + step.2 * duration,
            step.2 * duration, some (step.1.fill scope).styles⟩
  | [], _, _, _ => rfl
  | (step, offset) :: rest, walk, placed, positive => by
    have position : Scalar.larger (offset * duration) 0 = offset * duration := by
      rw [Scalar.larger_exact]
      exact max_eq_left (mul_nonneg (positive _ List.mem_cons_self) nonneg)
    have moved : (walk.modifyCurrent fun timeline =>
        timeline.forwardTo (offset * duration)).stage.skeleton walk.current =
          (walk.stage.skeleton walk.current).seek (offset * duration) := by
      have changed := timeline_modifyCurrent placed fun timeline =>
        timeline.forwardTo (offset * duration)
      rw [Stage.skeleton, changed, Timeline.forwardTo, position, Timeline.skeleton_seek]
      rfl
    have start : ((walk.writeKeyframe scope duration (step, offset)).stage.skeleton
        walk.current).start = (walk.stage.skeleton walk.current).start := by
      rw [skeleton_step scope nonneg placed (positive _ List.mem_cons_self),
        Timeline.Skeleton.start_seek]
    have others := keyframeImprints_eq rest
      (placed_writeKeyframe placed scope duration (step, offset))
      (fun step member => positive step (List.mem_cons_of_mem _ member))
    have put : (walk.modifyCurrent fun timeline =>
        timeline.forwardTo (offset * duration)).imprint (some (step.fill scope).styles) =
          ⟨walk.current, (walk.stage.skeleton walk.current).start + offset * duration,
            offset * duration, some (step.fill scope).styles⟩ := by
      have now : (walk.modifyCurrent fun timeline =>
          timeline.forwardTo (offset * duration)).now =
            ((walk.stage.skeleton walk.current).seek (offset * duration)).start +
              ((walk.stage.skeleton walk.current).seek (offset * duration)).cursor :=
        congrArg (fun skeleton => skeleton.start + skeleton.cursor) moved
      have cursor : ((walk.modifyCurrent fun timeline =>
          timeline.forwardTo (offset * duration)).stage.timeline walk.current).cursor =
            ((walk.stage.skeleton walk.current).seek (offset * duration)).cursor :=
        congrArg Timeline.Skeleton.cursor moved
      rw [Timeline.Skeleton.cursor_seek] at now cursor
      rw [Timeline.Skeleton.start_seek] at now
      exact congr (congrArg (Imprint.mk walk.current) now) cursor ▸ rfl
    rw [keyframeImprints, put, List.map_cons]
    refine congrArg (_ :: ·) (others.trans ?_)
    rw [← start]
    rfl

end Keyframes

/-- Behind its steps the fork of a keyframe list holds them. -/
theorem plays_fork {settings : Settings Rat} (frame : 0 ≤ settings.frameLength)
    {walk : Traversal Rat} (leads : walk.Leads) (scope : Params Rat) {timings : Timings Rat}
    (lasts : 0 < timings.duration) (steps : List (StyleStep Rat × Rat))
    (positive : ∀ step ∈ steps, 0 ≤ step.2) :
    ((writeKeyframes scope timings.duration steps (walk.forkKeyframes timings)).stage.timeline
      walk.stage.size).Plays scope walk.now timings steps := by
  have invariant := Stage.wellTimed_invariant frame
  have placed := placed_forkKeyframes walk timings
  have blank := skeleton_forked walk timings
  have forked : (walk.forkKeyframes timings).stage.WellTimed :=
    invariant.ease _ _ _ (branch_invariant invariant leads.timed)
  have timed := writeKeyframes_invariant invariant scope timings.duration steps forked
  have imprints := keyframeImprints_eq scope lasts.le steps placed positive
  have bound : walk.stage.size < (writeKeyframes scope timings.duration steps
      (walk.forkKeyframes timings)).stage.size :=
    placed.trans_eq (stays_writeKeyframes scope timings.duration steps placed).2.1.symm
  obtain ⟨start, times⟩ := span_writeKeyframes scope lasts.le steps placed positive
  refine ⟨timed.timeline _, start.trans (congrArg Timeline.Skeleton.start blank), ?_,
    fun time => (times time).trans ?_, ?_⟩
  · have branched : walk.branch.Placed :=
      Nat.lt_of_lt_of_eq (Nat.lt_succ_self _) (Stage.size_push _ _).symm
    have eased := congrArg Timeline.header (timeline_modifyCurrent branched fun timeline =>
      { timeline with easing := timings.easing })
    have kept := header_writeKeyframes scope timings.duration walk.stage.size steps
      (walk.forkKeyframes timings)
    exact congrArg Prod.fst (kept.trans eased)
  · rw [blank]
    exact or_congr_left List.mem_singleton
  · intro earlier step later split shown member stands property value free unreserved given last
    have fresh : (walk.forkKeyframes timings).stage.Keeps property [] :=
      ⟨fun _ member => absurd member List.not_mem_nil,
        fun _ _ => .of_unopened (fun _ member => absurd member List.not_mem_nil) _⟩
    have kept := (keeps_writeKeyframes free unreserved scope timings.duration steps fresh forked
      placed).strands _ bound
    refine kept.frames (shown.time, shown.styles.get? property) (List.mem_map_of_mem member) _ ?_
    rw [List.nil_append, imprints, split, List.map_append, List.map_cons, stands]
    refine imprinted_of_last ?_ fun other among => ?_
    · refine (StyleStep.get?_fill scope step.1 free unreserved).trans ?_
      rw [given, Option.map_some]
    · obtain ⟨rewriting, behind, rfl⟩ := List.mem_map.1 among
      refine Bool.eq_false_iff.2 fun reached => ?_
      obtain ⟨_, same, touched⟩ := Imprint.reaches_iff.1 reached
      have unwritten := last rewriting behind (mul_right_cancel₀ lasts.ne' same)
      have filled : (rewriting.1.fill scope).styles.contains property =
          rewriting.1.merged.contains property := by
        rw [OrderedMap.contains, StyleStep.get?_fill scope rewriting.1 free unreserved,
          Option.isSome_map, OrderedMap.contains]
      exact Bool.false_ne_true (unwritten.symm.trans (filled.symm.trans touched))

end Traversal

/-! ## Its instruction -/

/-- The instruction places the steps of a keyframe list, which ends at a position, in absolute time
from a start on. Its keyframes stand at the start and where the steps are, one at each time, and
each shows what the last of the steps there has written. -/
structure Instruction.Places (scope : Params Rat) (start : Rat) (timings : Timings Rat)
    (steps : List (StyleStep Rat × Rat)) (last : Rat) (instruction : Instruction Rat) : Prop where
  delay : instruction.delay = start
  duration : instruction.duration = last * timings.duration
  easing : instruction.easing = timings.easing
  keyframes : instruction.PlacedAt fun time =>
    time = start ∨ ∃ step ∈ steps, time = start + step.2 * timings.duration
  shows : ∀ earlier step later, steps = earlier ++ step :: later →
    ∀ keyframe ∈ instruction.keyframes,
      instruction.StandsAt keyframe (start + step.2 * timings.duration) →
        ∀ property value, property ≠ offsetKey → property ≠ easingKey →
          step.1.merged.get? property = some value →
            (∀ other ∈ later, other.2 = step.2 → other.1.merged.contains property = false) →
              keyframe.get? property = some (value.fill scope).1

namespace Timeline.Plays

variable {scope : Params Rat} {start last : Rat} {timings : Timings Rat}
  {steps : List (StyleStep Rat × Rat)} {timeline : Timeline Rat}
  (plays : timeline.Plays scope start timings steps) (lasts : 0 < timings.duration)
  (rising : (steps.map Prod.snd).Pairwise (· ≤ ·))
  (ends : (steps.map Prod.snd).getLast? = some last) (positive : 0 < last)
include plays lasts rising ends positive

/-- The last step is the end of the timeline. -/
theorem length_eq : timeline.length = last * timings.duration := by
  obtain ⟨earlier, split⟩ := List.getLast?_eq_some_iff.1 ends
  have latest : ∀ step ∈ steps, step.2 ≤ last := by
    intro step member
    have listed : step.2 ∈ earlier ++ [last] := split ▸ List.mem_map_of_mem member
    rw [split] at rising
    rcases List.mem_append.1 listed with before | there
    · exact (List.pairwise_append.1 rising).2.2 _ before last List.mem_cons_self
    · exact (List.mem_singleton.1 there).le
  have reached : last * timings.duration ∈ timeline.times := by
    obtain ⟨step, member, same⟩ := List.mem_map.1 (List.mem_of_getLast? ends)
    exact (plays.times _).2 (.inr ⟨step, member, same ▸ rfl⟩)
  refine le_antisymm ?_ (time_le_length plays.timed reached)
  rcases (plays.times _).1 (length_mem_times plays.timed.settled) with zero | ⟨step, member, same⟩
  · exact zero ▸ (mul_pos positive lasts).le
  · exact same ▸ mul_le_mul_of_nonneg_right (latest step member) lasts.le

omit rising in
/-- The timeline is worth emitting. -/
theorem hasStyling : timeline.hasStyling = true := by
  obtain ⟨step, member, same⟩ := List.mem_map.1 (List.mem_of_getLast? ends)
  refine hasStyling_of_time plays.timed.settled ((plays.times _).2 (.inr ⟨step, member, rfl⟩)) ?_
  rw [same]
  exact (mul_pos positive lasts).ne'

/-- The instruction of the timeline places the steps. -/
theorem places : timeline.instruction.Places scope start timings steps last := by
  have length := plays.length_eq lasts rising ends positive
  have extended : timeline.length ≠ 0 := length ▸ (mul_pos positive lasts).ne'
  have keyframes := keyframes_of_length_ne extended
  have delay : timeline.instruction.delay = start := plays.start
  have duration : timeline.instruction.duration = timeline.length := rfl
  refine ⟨delay, length, plays.easing, placedAt_instruction plays.timed extended fun time => ?_, ?_⟩
  · rw [plays.start]
    constructor
    · rintro (here | ⟨step, among, there⟩)
      · exact ⟨0, (plays.times 0).2 (.inl rfl), here.trans (add_zero start).symm⟩
      · exact ⟨_, (plays.times _).2 (.inr ⟨step, among, rfl⟩), there⟩
    · rintro ⟨since, member, there⟩
      rcases (plays.times since).1 member with zero | ⟨step, among, same⟩
      · exact .inl (there.trans (zero.symm ▸ add_zero start))
      · exact .inr ⟨step, among, same ▸ there⟩
  · intro earlier step later split keyframe emitted stands property value free unreserved given last
    rw [keyframes] at emitted
    obtain ⟨shown, sorted, rfl⟩ := List.mem_map.1 emitted
    have member := (Keyframe.perm_sortByTime timeline.frames).mem_iff.1 sorted
    obtain ⟨offset, carried, there⟩ := stands
    rw [get?_emit_offset, Option.some.injEq, Value.number.injEq] at carried
    rw [← carried, delay, duration, div_mul_cancel₀ _ extended] at there
    have own := plays.shows earlier step later split shown member (add_left_cancel there) property
      value free unreserved given last
    rw [get?_emit _ _ _ free, own, Option.some_or]

end Timeline.Plays

/-! ## Visits -/

namespace Traversal

/-- The walk behind a keyframe list leaves its fork as the steps wrote it. -/
theorem timeline_runKeyframes {walk : Traversal Rat} (placed : walk.Placed) (scope : Params Rat)
    (steps : List (StyleStep Rat)) (timings : Timings Rat) :
    (walk.runKeyframes scope steps timings).current = walk.stage.size + 1 ∧
      (walk.runKeyframes scope steps timings).stage.timeline walk.stage.size =
        (writeKeyframes scope timings.duration (steps.zip (keyframeOffsets steps))
          (walk.forkKeyframes timings)).stage.timeline walk.stage.size := by
  have forked := placed_forkKeyframes walk timings
  have size : (writeKeyframes scope timings.duration (steps.zip (keyframeOffsets steps))
      (walk.forkKeyframes timings)).stage.size = walk.stage.size + 1 :=
    (stays_writeKeyframes scope timings.duration _ forked).2.1.trans
      (size_forkKeyframes walk timings)
  have absorbed (source : Nat) : ((writeKeyframes scope timings.duration
      (steps.zip (keyframeOffsets steps)) (walk.forkKeyframes timings)).stage.absorb walk.current
        source).size = walk.stage.size + 1 :=
    (Stage.size_eq_of_skeletons (Stage.skeletons_absorb _ _ _)).trans size
  refine ⟨absorbed _, (Stage.timeline_push _ _ _).trans ((if_neg ?_).trans ?_)⟩
  · exact fun same => Nat.ne_of_lt (Nat.lt_succ_self _) (same.trans (absorbed _))
  · exact Stage.timeline_absorb_of_ne _ (Nat.ne_of_gt placed) _

end Traversal

/-- **Keyframe lists are placed in absolute time.** Let no frame have a negative length, so that
clocks do not run backwards. For every animated step with a keyframe list whose positions do not
fall and end above zero, and that takes time, all steps of the list are written on one timeline
from the end of the delay on. Its instruction is emitted and has the steps where their parts of the
duration have passed, and the walk goes on at the end of the duration. -/
theorem Tree.compile_places_keyframes (tree : Tree Rat) (settings : Settings Rat)
    (starting destination : Styles Rat) (scope : Params Rat) (frame : 0 ≤ settings.frameLength)
    {inner : Params Rat} {entry : Traversal Rat} {timing : Timing Rat}
    {steps : List (StyleStep Rat)} {last : Rat}
    (met : Traversal.Meets settings scope (.start starting) tree inner entry
      (.animate timing (some (.keyframes steps))))
    (lasts : 0 < (timing.resolve inner).1.duration)
    (rising : (keyframeOffsets steps).Pairwise (· ≤ ·))
    (ends : (keyframeOffsets steps).getLast? = some last) (positive : 0 < last) :
    (Traversal.imprints settings inner (.animate timing (some (.keyframes steps))) entry =
      (steps.zip (keyframeOffsets steps)).map fun step =>
        ⟨entry.stage.size,
          entry.now + (timing.resolve inner).1.delay + step.2 * (timing.resolve inner).1.duration,
          step.2 * (timing.resolve inner).1.duration, some (step.1.fill inner).styles⟩) ∧
    (∃ instruction ∈ (tree.compile settings starting destination scope).1,
      instruction = ((tree.landedStage settings starting destination scope).timeline
        entry.stage.size).instruction ∧
      instruction.Places inner (entry.now + (timing.resolve inner).1.delay)
        (timing.resolve inner).1 (steps.zip (keyframeOffsets steps)) last) ∧
    (Traversal.visit settings inner (.animate timing (some (.keyframes steps))) entry).now =
      entry.now + (timing.resolve inner).1.delay + (timing.resolve inner).1.duration := by
  have leads := met.leads frame (Traversal.leads_start starting).1
  have waited := (Traversal.slot_awaitPayload leads inner timing).leads
  have now := Traversal.now_awaitPayload leads inner timing
  have size : (entry.awaitPayload inner timing).stage.size = entry.stage.size := by
    unfold Traversal.awaitPayload Traversal.wait
    split
    · exact (Stage.size_modify _ _ _).trans (Stage.size_modify _ _ _)
    · rfl
  have unit : ∀ step ∈ steps.zip (keyframeOffsets steps), 0 ≤ step.2 := fun step member =>
    (keyframeOffsets_mem_unit steps step.2 (List.of_mem_zip member).2).1
  have listed := map_snd_zip_keyframeOffsets steps
  -- The fork, as the steps leave it, is the timeline that is emitted.
  have plays := Traversal.plays_fork frame waited inner lasts (steps.zip (keyframeOffsets steps))
    unit
  obtain ⟨current, wrote⟩ := Traversal.timeline_runKeyframes waited.placed inner steps
    (timing.resolve inner).1
  rw [size] at current wrote plays
  obtain ⟨bound, emitted⟩ := Tree.timeline_landedStage met destination leads.placed
    (Nat.lt_of_lt_of_eq (Nat.lt_succ_self _) current.symm)
  have visited : (Traversal.visit settings inner (.animate timing (some (.keyframes steps)))
      entry).stage = ((entry.awaitPayload inner timing).runKeyframes inner steps
        (timing.resolve inner).1).stage := rfl
  rw [← wrote, now, ← visited, ← emitted] at plays
  have styled := plays.hasStyling lasts (listed.symm ▸ ends) positive
  refine ⟨?_, ⟨_, Stage.instruction_mem bound styled, rfl,
    plays.places lasts (listed.symm ▸ rising) (listed.symm ▸ ends) positive⟩, ?_⟩
  · refine (Traversal.keyframeImprints_eq inner lasts.le _
      (Traversal.placed_forkKeyframes _ _) unit).trans ?_
    have start : (Timeline.blank (entry.awaitPayload inner timing).now ∅).skeleton.start =
        entry.now + (timing.resolve inner).1.delay := now
    have current : ((entry.awaitPayload inner timing).forkKeyframes
        (timing.resolve inner).1).current = entry.stage.size := size
    rw [Traversal.skeleton_forked, start, current]
  · refine (Traversal.slot_runKeyframes frame waited inner steps timing).2.trans ?_
    rw [now]

/-- The steps of a lamp that flickers. The last two are at one position, and none is at the end. -/
def flickers : List (StyleStep Rat) :=
  [.ofEntries [("offset", .number (1 / 4)), ("opacity", .text "\x7b\x7bdim\x7d\x7d")],
    .ofEntries [("offset", .number (1 / 2)), ("opacity", .number 1), ("color", .text "red")],
    .ofEntries [("offset", .number (1 / 2)), ("color", .text "blue")]]

/-- A lamp that grows, and behind a delay flickers for a part of its time. -/
def flickeringLamp : Tree Rat :=
  .sequence
    [.animateTo (.millis 50) (.ofEntries [("width", .number 1)]),
      .reference (.animateThrough (.resolved ⟨200, 30, some "ease-in"⟩) flickers)
        (.ofList [("dim", .text "low")])]

/-- The lamp flickers from the end of the delay on for half of the duration. At the end it has the
opacity of the second step and the color of the third, and the walk goes on at the end of the
duration. -/
theorem places_keyframes_of_flickeringLamp :
    0 ≤ (Settings.standard : Settings Rat).frameLength ∧
      ∃ inner entry timing last,
        Traversal.Meets Settings.standard ∅ (.start ∅) flickeringLamp inner entry
            (.animate timing (some (.keyframes flickers))) ∧
          0 < (timing.resolve inner).1.duration ∧
          (keyframeOffsets flickers).Pairwise (· ≤ ·) ∧
          (keyframeOffsets flickers).getLast? = some last ∧ 0 < last ∧
          (∃ instruction ∈ (flickeringLamp.compile Settings.standard ∅ ∅ ∅).1,
            instruction.delay = 80 ∧ instruction.duration = 100 ∧
              instruction.easing = some "ease-in" ∧
              ∃ keyframe ∈ instruction.keyframes, instruction.StandsAt keyframe 180 ∧
                keyframe.get? "opacity" = some (.number 1) ∧
                keyframe.get? "color" = some (.text "blue")) ∧
          (Traversal.visit Settings.standard inner (.animate timing (some (.keyframes flickers)))
            entry).now = 280 := by
  have frame : 0 ≤ (Settings.standard : Settings Rat).frameLength := by decide
  have met : Traversal.Meets Settings.standard ∅ (.start ∅) flickeringLamp
      (referenceScope (.ofList [("dim", .text "low")]) ∅) _
        (.animate (.resolved ⟨200, 30, some "ease-in"⟩) (some (.keyframes flickers))) :=
    .step [.animateTo (.millis 50) (.ofEntries [("width", .number 1)])] []
      (.reference (.ofList [("dim", .text "low")]) (.here _ _ _))
  have lasts : (0 : Rat) < ((Timing.resolved ⟨200, 30, some "ease-in"⟩).resolve
      (referenceScope (.ofList [("dim", .text "low")]) ∅)).1.duration := by decide
  have rising : (keyframeOffsets flickers).Pairwise (· ≤ ·) := by decide +kernel
  have ends : (keyframeOffsets flickers).getLast? = some (1 / 2) := by decide +kernel
  have half : (0 : Rat) < 1 / 2 := by decide +kernel
  obtain ⟨_, ⟨instruction, emitted, _, places⟩, now⟩ := flickeringLamp.compile_places_keyframes
    Settings.standard ∅ ∅ ∅ frame met lasts rising ends half
  have paired : flickers.zip (keyframeOffsets flickers) =
      flickers.zip [1 / 4, 1 / 2, 1 / 2] := by decide +kernel
  have start : (Traversal.visitSteps Settings.standard ∅
      [.animateTo (.millis 50) (.ofEntries [("width", .number 1)])]
      ((Traversal.start ∅).enterSequence Settings.standard)).now +
        ((Timing.resolved ⟨200, 30, some "ease-in"⟩).resolve
          (referenceScope (.ofList [("dim", .text "low")]) ∅)).1.delay = (80 : Rat) := by
    decide +kernel
  have position : (80 : Rat) + 1 / 2 * ((Timing.resolved ⟨200, 30, some "ease-in"⟩).resolve
      (referenceScope (.ofList [("dim", .text "low")]) ∅)).1.duration = 180 := by decide +kernel
  rw [start, paired] at places
  obtain ⟨keyframe, shown, stands⟩ := places.keyframes.exists_keyframe
    (.inr ⟨_, List.mem_cons_of_mem _ List.mem_cons_self, position.symm⟩)
  refine ⟨frame, _, _, _, _, met, lasts, rising, ends, half, ⟨instruction, emitted, places.delay,
    places.duration.trans (by decide +kernel), places.easing, keyframe, shown, stands, ?_, ?_⟩,
    now.trans (by decide +kernel)⟩
  · exact places.shows [_] _ [_] rfl keyframe shown (position.symm ▸ stands) "opacity" (.number 1)
      (by decide) (by decide) (by decide +kernel) (by decide +kernel)
  · exact places.shows [_, _] _ [] rfl keyframe shown (position.symm ▸ stands) "color"
      (.text "blue") (by decide) (by decide) (by decide +kernel) (by decide +kernel)

end Storyboard
