import Storyboard.Proofs.Compilation.Emitted
import Storyboard.Proofs.Compilation.Ledger
import Storyboard.Proofs.Compilation.Upkeep
import Storyboard.Proofs.Timeline.Imprints
import Storyboard.Proofs.Timeline.Marks
import Storyboard.Proofs.Tree.Properties

/-!
# The easings of segments

Animated steps that run one after the other share one timeline. Each has a segment there: behind its
delay it moves for its duration. Its easing marks the keyframe on which the segment opens, and a
keyframe carries the easing of the last segment that opens there (`Tree.compile_marks_segments`).

Where every segment with an easing takes time, it is the only one that opens on its keyframe, and it
closes on the next. So an easing marks its own segment, and the last keyframe has none. A step
that takes no time opens and closes on one keyframe. Its easing then stands on the keyframe on which
the next segment opens, whatever that segment is (`instantStep_marks_next`).

The clock may be rounded. Then a segment takes time if its ends differ on the clock; a duration that
is too small for the numbers does not tell them apart.
-/

set_option autoImplicit false

namespace Storyboard

variable {ν : Type}

/-! ## Segments -/

/-- The part of an animated step in which it moves, in local time. -/
structure Segment (ν : Type) where
  opens : ν
  closes : ν
  easing : Option String
deriving DecidableEq

/-- A time is the start of the timeline, or one at which a segment opens or closes. -/
def Bounds [Scalar ν] (segments : List (Segment ν)) (time : ν) : Prop :=
  time = 0 ∨ ∃ segment ∈ segments, time = segment.opens ∨ time = segment.closes

theorem bounds_concat [Scalar ν] (log : List (Segment ν)) (segment : Segment ν) (time : ν) :
    Bounds (log ++ [segment]) time ↔
      (Bounds log time ∨ time = segment.opens) ∨ time = segment.closes := by
  unfold Bounds
  simp only [List.mem_append, List.mem_singleton]
  constructor
  · rintro (start | ⟨other, early | rfl, opens | closes⟩)
    · exact .inl (.inl (.inl start))
    · exact .inl (.inl (.inr ⟨other, early, .inl opens⟩))
    · exact .inl (.inl (.inr ⟨other, early, .inr closes⟩))
    · exact .inl (.inr opens)
    · exact .inr closes
  · rintro (((start | ⟨other, early, bound⟩) | opens) | closes)
    · exact .inl start
    · exact .inr ⟨other, .inl early, bound⟩
    · exact .inr ⟨segment, .inr rfl, .inl opens⟩
    · exact .inr ⟨segment, .inr rfl, .inr closes⟩

variable [Scalar ν]

/-- The segments of steps that run one after the other from a local time on. -/
def segments : ν → List (Timings ν) → List (Segment ν)
  | _, [] => []
  | time, timings :: rest =>
    ⟨time + timings.delay, time + timings.delay + timings.duration, timings.easing⟩ ::
      segments (time + timings.delay + timings.duration) rest

/-- The easing of the last segment with an easing that opens at a time. -/
def markAt (log : List (Segment ν)) (time : ν) : Option String :=
  log.reverse.findSome? fun segment =>
    if segment.opens == time then segment.easing else none

/-- One more segment marks the time at which it opens, if it has an easing. -/
theorem markAt_concat (log : List (Segment ν)) (segment : Segment ν) :
    markAt (log ++ [segment]) =
      match segment.easing with
      | some easing => fun time => if segment.opens == time then some easing else markAt log time
      | none => markAt log := by
  funext time
  obtain ⟨opens, closes, easing⟩ := segment
  rw [markAt, List.reverse_append, List.reverse_singleton, List.singleton_append,
    List.findSome?_cons]
  by_cases here : (opens == time) = true
  · cases easing with
    | some easing => simp [here]
    | none => simp [here, markAt]
  · cases easing with
    | some easing => simp [here, markAt]
    | none => simp [here, markAt]

/-- A mark is the easing of a segment that opens there. -/
theorem exists_of_markAt {log : List (Segment ν)} {time : ν} {easing : String}
    (marked : markAt log time = some easing) :
    ∃ segment ∈ log, segment.easing = some easing ∧ (segment.opens == time) = true := by
  obtain ⟨segment, member, eased⟩ := List.exists_of_findSome?_eq_some marked
  split at eased
  · next opens => exact ⟨segment, List.mem_reverse.1 member, eased, opens⟩
  · cases eased

/-- The amounts of timings are numbers from zero on. -/
def Timings.Forward (timings : Timings ν) : Prop :=
  Scalar.atMost 0 timings.delay = true ∧ Scalar.atMost 0 timings.duration = true

instance (timings : Timings ν) : Decidable timings.Forward :=
  inferInstanceAs (Decidable (_ ∧ _))

section Clock

variable [LawfulClock ν]

/-- The segments follow each other from a time on. -/
theorem segments_follow : ∀ (timings : List (Timings ν)) {time : ν},
    Scalar.atMost 0 time = true → (∀ step ∈ timings, step.Forward) →
      (∀ segment ∈ segments time timings, Scalar.atMost time segment.opens = true ∧
        Scalar.atMost segment.opens segment.closes = true) ∧
      (segments time timings).Pairwise fun earlier later =>
        Scalar.atMost earlier.closes later.opens = true
  | [], _, _, _ => ⟨fun _ member => absurd member List.not_mem_nil, .nil⟩
  | first :: rest, time, start, forward => by
    obtain ⟨delay, duration⟩ := forward first List.mem_cons_self
    have opens := LawfulSums.add_nonneg start delay
    have waits := LawfulClock.atMost_add start delay
    have lasts := LawfulClock.atMost_add opens duration
    obtain ⟨behind, follow⟩ := segments_follow rest (LawfulSums.add_nonneg opens duration)
      fun step member => forward step (List.mem_cons_of_mem _ member)
    refine ⟨fun segment member => ?_, .cons (fun later member => (behind later member).1) follow⟩
    rcases List.mem_cons.1 member with rfl | among
    · exact ⟨waits, lasts⟩
    · obtain ⟨after, ordered⟩ := behind segment among
      exact ⟨Scalar.atMost_trans (Scalar.atMost_trans waits lasts) after, ordered⟩

omit [LawfulClock ν] in
/-- The segments open and close at settled times. -/
theorem settled_of_bounds [LawfulSums ν] : ∀ (timings : List (Timings ν)) {time : ν},
    Scalar.Settled time → ∀ {bound : ν}, Bounds (segments time timings) bound →
      Scalar.Settled bound
  | [], _, _, _, .inl start => start ▸ LawfulSums.settled_zero
  | _ :: _, _, _, _, .inl start => start ▸ LawfulSums.settled_zero
  | first :: rest, time, settled, bound, .inr ⟨segment, member, there⟩ => by
    have opens := LawfulSums.settled_add first.delay settled
    have closes := LawfulSums.settled_add first.duration opens
    rcases List.mem_cons.1 member with rfl | among
    · rcases there with rfl | rfl
      · exact opens
      · exact closes
    · exact settled_of_bounds rest closes (.inr ⟨segment, among, there⟩)

end Clock

section Order

variable [LawfulSums ν] {log : List (Segment ν)}
  (follow : log.Pairwise fun earlier later => Scalar.atMost earlier.closes later.opens = true)
  (ordered : ∀ segment ∈ log, Scalar.atMost 0 segment.opens = true ∧
    Scalar.atMost segment.opens segment.closes = true)
  {segment : Segment ν} (member : segment ∈ log) (lasts : segment.opens < segment.closes)
include follow member lasts

/-- A segment that takes time marks the time at which it opens. -/
theorem markAt_opens {easing : String} (eased : segment.easing = some easing) :
    markAt log segment.opens = some easing := by
  obtain ⟨before, after, rfl⟩ := List.append_of_mem member
  have later : after.reverse.findSome? (fun other =>
      if other.opens == segment.opens then other.easing else none) = none := by
    refine List.findSome?_eq_none_iff.2 fun other behind => if_neg ?_
    have past := (List.pairwise_cons.1 (List.pairwise_append.1 follow).2.1).1 other
      (List.mem_reverse.1 behind)
    rw [Scalar.beq_eq_false_of_gt (Scalar.lt_of_lt_of_atMost lasts past)]
    exact Bool.false_ne_true
  have here := (LawfulScalar.proper_of_lt lasts).1
  rw [markAt, List.reverse_append, List.reverse_cons, List.append_assoc, List.findSome?_append,
    later, Option.none_or, List.singleton_append, List.findSome?_cons, if_pos here, eased]

include ordered

/-- Nothing opens or closes within a segment. -/
theorem bounds_outside {time : ν} (bound : Bounds log time) :
    Scalar.atMost time segment.opens = true ∨ Scalar.atMost segment.closes time = true := by
  rcases bound with rfl | ⟨other, among, there⟩
  · exact .inl (ordered segment member).1
  obtain ⟨before, after, rfl⟩ := List.append_of_mem member
  obtain ⟨_, follow, early⟩ := List.pairwise_append.1 follow
  obtain ⟨opens, closes⟩ := LawfulScalar.proper_of_lt lasts
  rcases List.mem_append.1 among with earlier | rest
  · have closed := early other earlier segment List.mem_cons_self
    have opened := (ordered other among).2
    rcases there with rfl | rfl
    · exact .inl (Scalar.atMost_trans opened closed)
    · exact .inl closed
  · rcases List.mem_cons.1 rest with rfl | later
    · rcases there with rfl | rfl
      · exact .inl (Scalar.atMost_self opens)
      · exact .inr (Scalar.atMost_self closes)
    · have past := (List.pairwise_cons.1 follow).1 other later
      have opened := (ordered other among).2
      rcases there with rfl | rfl
      · exact .inr past
      · exact .inr (Scalar.atMost_trans past opened)

end Order

/-! ## One timeline -/

/-- The stage has one timeline. Its keyframes stand at the times of a kind and are marked with
easings, its cursor stands at a time, and it has neither an easing of its own nor landed. -/
structure Stage.Solo (holds : ν → Prop) (marks : ν → Option String) (cursor : ν)
    (stage : Stage ν) : Prop where
  size : stage.size = 1
  settled : (stage.skeleton 0).Settled
  cursor : (stage.skeleton 0).cursor = cursor
  times : ∀ time, time ∈ (stage.skeleton 0).times ↔ holds time
  header : (stage.timeline 0).header = (none, false)
  marked : (stage.strand easingKey 0).Marked marks

namespace Stage.Solo

variable {holds : ν → Prop} {marks : ν → Option String} {cursor : ν} {stage : Stage ν}

theorem opened (solo : stage.Solo holds marks cursor) : 0 < stage.size := by
  rw [solo.size]
  exact Nat.one_pos

/-- A change of neither skeletons nor headers may put marks. -/
theorem remark {after : Stage ν} {remarks : ν → Option String}
    (solo : stage.Solo holds marks cursor) (same : after.skeletons = stage.skeletons)
    (header : (after.timeline 0).header = (stage.timeline 0).header)
    (marked : (after.strand easingKey 0).Marked remarks) : after.Solo holds remarks cursor := by
  have skeleton := skeleton_eq_of_skeletons same 0
  exact {
    size := (size_eq_of_skeletons same).trans solo.size
    settled := skeleton ▸ solo.settled
    cursor := skeleton ▸ solo.cursor
    times := skeleton ▸ solo.times
    header := header.trans solo.header
    marked := marked }

theorem congr {other : ν → Prop} (solo : stage.Solo holds marks cursor)
    (same : ∀ time, holds time ↔ other time) : stage.Solo other marks cursor :=
  { solo with times := fun time => (solo.times time).trans (same time) }

theorem cursor_nonneg (solo : stage.Solo holds marks cursor) : Scalar.atMost 0 cursor = true :=
  solo.cursor ▸ solo.settled.cursor_nonneg

theorem cursor_settled (solo : stage.Solo holds marks cursor) : Scalar.Settled cursor :=
  solo.cursor ▸ solo.settled.cursor_settled

theorem snapshot (solo : stage.Solo holds marks cursor) :
    (stage.modify 0 Timeline.snapshot).Solo holds marks cursor := by
  refine solo.remark (stage.skeletons_modify 0 Timeline.skeleton_snapshot)
    (stage.header_modify 0 0 fun _ => rfl) ?_
  rw [strand_modify solo.opened, Timeline.strand_snapshot]
  exact solo.marked.snapshot

/-- Writing styles without an easing puts no marks. -/
theorem write (solo : stage.Solo holds marks cursor) {styles : Styles ν}
    (bare : styles.get? easingKey = none) :
    (stage.write 0 styles none).Solo holds marks cursor := by
  refine solo.remark (stage.skeletons_write 0 styles none) (stage.header_write 0 0 styles none) ?_
  rw [strand_write solo.opened (by decide) styles (.inr rfl), bare]
  exact solo.marked.carry

variable [LawfulSums ν] {time : ν}

/-- The cursor moves on by an amount of time. -/
theorem timeline_pass (solo : stage.Solo holds marks cursor)
    (nonneg : Scalar.atMost 0 time = true) :
    (stage.modify 0 fun timeline => timeline.forwardTo (timeline.cursor + time)).timeline 0 =
      (stage.timeline 0).seek (cursor + time) := by
  have here : (stage.timeline 0).cursor = cursor := solo.cursor
  rw [timeline_modify solo.opened, if_pos rfl, here, Timeline.forwardTo, Scalar.larger_zero
    (LawfulSums.settled_add time solo.cursor_settled)
    (LawfulSums.add_nonneg solo.cursor_nonneg nonneg)]

/-- Where the cursor moves on, a keyframe stands where it goes. -/
theorem pass (solo : stage.Solo holds marks cursor) (nonneg : Scalar.atMost 0 time = true) :
    (stage.modify 0 fun timeline => timeline.forwardTo (timeline.cursor + time)).Solo
      (fun opened => holds opened ∨ opened = cursor + time) marks (cursor + time) := by
  have settled := LawfulSums.settled_add time solo.cursor_settled
  have reached := LawfulSums.add_nonneg solo.cursor_nonneg nonneg
  have moved := solo.timeline_pass nonneg
  have skeleton : (stage.modify 0 fun timeline =>
      timeline.forwardTo (timeline.cursor + time)).skeleton 0 =
        (stage.skeleton 0).seek (cursor + time) := by
    rw [Stage.skeleton, moved, Timeline.skeleton_seek]
    rfl
  refine ⟨(size_modify _ _ _).trans solo.size, ?_, ?_, fun opened => ?_, ?_, ?_⟩
  · exact skeleton ▸ solo.settled.seek reached settled
  · rw [skeleton, Timeline.Skeleton.cursor_seek]
  · rw [skeleton, Timeline.Skeleton.mem_times_seek _ fun opened =>
      solo.settled.eq_of_beq settled, solo.times]
  · rw [moved, Timeline.header_seek, solo.header]
  · rw [Stage.strand, moved, Timeline.strand_seek]
    exact solo.marked.seek settled (Scalar.proper_of_atMost reached).2

/-- Where the cursor moves on with an easing, the keyframe that it leaves is marked. -/
theorem passEased (solo : stage.Solo holds marks cursor) (nonneg : Scalar.atMost 0 time = true)
    (easing : Option String) :
    ((stage.modify 0 fun timeline => timeline.forwardTo (timeline.cursor + time)).easeSegment 0
      easing).Solo (fun opened => holds opened ∨ opened = cursor + time)
        (match easing with
          | some easing => fun opened => if cursor == opened then some easing else marks opened
          | none => marks) (cursor + time) := by
  have moved := solo.pass nonneg
  cases easing with
  | none => exact moved
  | some easing =>
    refine moved.remark (skeletons_easeSegment _ 0 _) (header_easeSegment _ 0 0 _) ?_
    have bound : (stage.timeline 0).current < (stage.timeline 0).frames.length :=
      solo.settled.current_lt.trans_eq (List.length_map _)
    have eased : ((stage.modify 0 fun timeline =>
        timeline.forwardTo (timeline.cursor + time)).easeSegment 0 (some easing)).strand
          easingKey 0 = ((stage.strand easingKey 0).edit fun _ =>
            some (.text easing)).seek (cursor + time) := by
      refine (strand_modify moved.opened _).trans ?_
      rw [solo.timeline_pass nonneg, Timeline.easeSegment_seek bound, Timeline.strand_seek,
        Timeline.strand_editCurrent]
      · rfl
      · intro styles
        rw [OrderedMap.get?_insert, if_pos rfl]
    have here : (stage.timeline 0).cursor = cursor := solo.cursor
    rw [eased]
    exact (here ▸ Timeline.marked_mark solo.settled solo.marked easing).seek
      moved.cursor_settled (Scalar.proper_of_atMost moved.cursor_nonneg).2

end Stage.Solo

/-! ## The walk -/

namespace Traversal

/-- The walk is on the only timeline, which the segments so far have marked, and nothing that was
written is missing at the cursor. -/
structure Eases (log : List (Segment ν)) (cursor : ν) (walk : Traversal ν) : Prop where
  current : walk.current = 0
  solo : walk.stage.Solo (Bounds log) (markAt log) cursor
  complete : (walk.stage.timeline 0).completeDestination ∅ = ∅

theorem eases_start [LawfulSums ν] {starting : Styles ν} (bare : starting.get? easingKey = none) :
    (start starting).Eases [] 0 := by
  have created : (Stage.empty.create (0 : ν)).Solo (Bounds []) (markAt []) 0 := {
    size := rfl
    settled := Timeline.settled_skeleton_blank 0 ∅
    cursor := rfl
    times := fun time => by
      refine List.mem_singleton.trans ?_
      simp [Bounds]
    header := rfl
    marked := .blank 0 }
  exact ⟨rfl, created.write bare, (complete_start starting).complete.completeDestination_eq ∅⟩

variable [LawfulClock ν] (settings : Settings ν) (scope : Params ν)

/-- Behind the delay of a step a keyframe stands under the cursor. -/
theorem solo_awaitPayload {walk : Traversal ν} {holds : ν → Prop}
    {marks : ν → Option String} {cursor : ν} (current : walk.current = 0)
    (solo : walk.stage.Solo holds marks cursor) {timing : Timing ν}
    (delay : Scalar.atMost 0 (timing.resolve scope).1.delay = true) :
    (walk.awaitPayload scope timing).stage.Solo
      (fun time => holds time ∨ time = cursor + (timing.resolve scope).1.delay) marks
      (cursor + (timing.resolve scope).1.delay) := by
  unfold awaitPayload wait
  split
  · have moved := (solo.pass delay).snapshot
    rw [← current] at moved
    exact moved
  · next instant =>
    have level := LawfulScalar.beq_symm ((Scalar.atMost_iff.1 delay).resolve_left instant)
    rw [LawfulClock.add_of_zero solo.cursor_settled level]
    refine solo.congr fun time => ⟨.inl, fun either => either.elim id fun same => ?_⟩
    have under : cursor ∈ (walk.stage.skeleton 0).times := solo.cursor ▸ solo.settled.cursor_mem
    exact same ▸ (solo.times cursor).1 under

/-- An animated step adds its segment. -/
theorem eases_animate {walk : Traversal ν} {log : List (Segment ν)} {cursor : ν}
    (eases : walk.Eases log cursor) (complete : walk.Complete) {timing : Timing ν}
    {step : StyleStep ν}
    (bare : step.merged.get? easingKey = none) (forward : (timing.resolve scope).1.Forward) :
    (visit settings scope (.animateTo timing step) walk).Eases
      (log ++ segments cursor [(timing.resolve scope).1])
      (cursor + (timing.resolve scope).1.delay + (timing.resolve scope).1.duration) := by
  have stays : (walk.awaitPayload scope timing).current = 0 :=
    (current_awaitPayload scope timing walk).trans eases.current
  have moved := (solo_awaitPayload scope eases.current eases.solo forward.1).passEased
    forward.2 (timing.resolve scope).1.easing
  have unmarked : (step.fill scope).easing = none := by rw [step.easing_fill, bare, Option.map_none]
  have stage : (visit settings scope (.animateTo timing step) walk).stage =
      (((walk.awaitPayload scope timing).stage.modify 0 fun timeline => timeline.forwardTo
        (timeline.cursor + (timing.resolve scope).1.duration)).easeSegment 0
          (timing.resolve scope).1.easing).write 0 (step.fill scope).styles none := by
    have wrote : (visit settings scope (.animateTo timing step) walk).stage =
        (((walk.awaitPayload scope timing).pass (timing.resolve scope).1.duration).writeStyle scope
          step (timing.resolve scope).1.easing).stage := rfl
    rw [wrote, writeStyle, pass, modifyCurrent, stays, unmarked, Option.or_none]
    rfl
  refine ⟨stays, ?_, ?_⟩
  · rw [stage, segments, segments, markAt_concat]
    exact (moved.write (step.get?_fill_easing scope)).congr fun time =>
      (bounds_concat log ⟨_, _, _⟩ time).symm
  · have whole := complete_visit settings (.animateTo timing step) scope complete
    have ended := whole.complete.completeDestination_eq ∅
    rwa [show (visit settings scope (.animateTo timing step) walk).current = 0 from stays] at ended

/-- Steps that run one after the other add their segments. -/
theorem eases_visitSteps : ∀ (steps : List (Timing ν × StyleStep ν)) {walk : Traversal ν}
    {log : List (Segment ν)} {cursor : ν}, walk.Eases log cursor → walk.Complete →
      (∀ step ∈ steps, step.2.merged.get? easingKey = none) →
      (∀ step ∈ steps, (step.1.resolve scope).1.Forward) →
        ∃ reached, (visitSteps settings scope (steps.map fun step => .animateTo step.1 step.2)
          walk).Eases
            (log ++ segments cursor (steps.map fun step => (step.1.resolve scope).1)) reached
  | [], walk, log, cursor, eases, _, _, _ => ⟨cursor, (List.append_nil log).symm ▸ eases⟩
  | (timing, step) :: rest, walk, log, cursor, eases, complete, unmarked, forward => by
    have first := eases_animate settings scope eases complete (unmarked _ List.mem_cons_self)
      (forward _ List.mem_cons_self)
    obtain ⟨reached, others⟩ := eases_visitSteps rest first
      (complete_visit settings (.animateTo timing step) scope complete)
      (fun step member => unmarked step (List.mem_cons_of_mem _ member))
      (fun step member => forward step (List.mem_cons_of_mem _ member))
    rw [List.append_assoc] at others
    exact ⟨reached, others⟩

end Traversal

/-! ## The instruction -/

omit [Scalar ν] in
/-- A sequence of animated steps. -/
def Tree.animateSteps (steps : List (Timing ν × StyleStep ν)) : Tree ν :=
  .sequence (steps.map fun step => .animateTo step.1 step.2)

/-- The segments of animated steps with their timings resolved in a scope. -/
def stepSegments (scope : Params ν) (steps : List (Timing ν × StyleStep ν)) : List (Segment ν) :=
  segments 0 (steps.map fun step => (step.1.resolve scope).1)

omit [Scalar ν] in
/-- Animated steps take no forks. -/
theorem Tree.anyForks_animateTo (steps : List (Timing ν × StyleStep ν)) :
    Tree.anyForks (steps.map fun step => .animateTo step.1 step.2) = false := by
  induction steps with
  | nil => rfl
  | cons step rest ih => exact ih

/-- A compilation of animated steps emits the one timeline that they are on. -/
theorem Tree.solo_compile [LawfulClock ν] (settings : Settings ν) {starting : Styles ν}
    (scope : Params ν) {steps : List (Timing ν × StyleStep ν)}
    (bare : starting.get? easingKey = none)
    (unmarked : ∀ step ∈ steps, step.2.merged.get? easingKey = none)
    (forward : ∀ step ∈ steps, (step.1.resolve scope).1.Forward) :
    ∃ (stage : Stage ν) (ends : ν),
      ((animateSteps steps).compile settings starting ∅ scope).1 = stage.instructions ∧
        stage.Solo (Bounds (stepSegments scope steps)) (markAt (stepSegments scope steps))
          ends := by
  obtain ⟨reached, eases⟩ := Traversal.eases_visitSteps settings scope steps
    (Traversal.eases_start bare) (Traversal.complete_start starting) unmarked forward
  refine ⟨_, reached, ?_, eases.solo⟩
  have visited : Traversal.visit settings scope (animateSteps steps) (.start starting) =
      (Traversal.visitSteps settings scope (steps.map fun step => .animateTo step.1 step.2)
        (.start starting)).after .sequence := by
    rw [animateSteps, Traversal.visit, Tree.anyForks_animateTo]
    rfl
  have current := eases.current
  rw [compile, visited]
  refine congrArg Stage.instructions (if_pos ?_)
  show (((Traversal.visitSteps _ _ _ _).stage.timeline (Traversal.visitSteps _ _ _
    _).current).completeDestination ∅).isEmpty = true
  rw [current, eases.complete]
  rfl

/-- The timeline is emitted where it has a length, and where it has none nothing happens. -/
theorem Stage.Solo.instructions [LawfulSums ν] {holds : ν → Prop} {marks : ν → Option String}
    {cursor : ν} {stage : Stage ν} (solo : stage.Solo holds marks cursor) :
    (stage.instructions = [(stage.timeline 0).instruction] ∧
        ((stage.timeline 0).length == 0) = false) ∨
      (stage.instructions = [Instruction.noop] ∧ ∀ time, holds time → time = 0) := by
  have settled : (stage.timeline 0).skeleton.Settled := solo.settled
  rw [instructions_of_sole solo.size]
  cases instant : (stage.timeline 0).length == 0 with
  | true =>
    obtain ⟨single, still⟩ := Timeline.times_of_instant settled instant
    have landed : (stage.timeline 0).landed = false := congrArg Prod.snd solo.header
    have few : ¬1 < (stage.timeline 0).frames.length :=
      Nat.not_lt_of_le ((List.length_map _).symm.trans_le single)
    refine .inr ⟨if_neg ?_, fun time held => still time ((solo.times time).2 held)⟩
    simp [Timeline.hasStyling, landed, few]
  | false =>
    have apart : (stage.timeline 0).length ≠ 0 := by
      intro same
      rw [same, LawfulScalar.zero_proper] at instant
      cases instant
    have styled := Timeline.hasStyling_of_time settled (Timeline.length_mem_times settled) apart
    exact .inl ⟨if_pos styled, rfl⟩

/-- The keyframes of an instruction stand at rising times, each at its part of the duration, and
each is marked with the easing of the last segment that opens there. -/
structure Instruction.ShowsMarks (log : List (Segment ν)) (times : List ν)
    (instruction : Instruction ν) : Prop where
  rising : times.Pairwise (· < ·)
  keyframes : List.Forall₂ (fun time keyframe =>
      keyframe.get? offsetKey = some (.number (time / instruction.duration)) ∧
        keyframe.get? easingKey = (markAt log time).map Value.text)
    times instruction.keyframes

omit [Scalar ν] in
/-- An easing marks its own segment only: a keyframe carries an easing exactly where a segment with
this easing reaches from it to the next keyframe. The last keyframe carries none. -/
def Instruction.EasesSegments (log : List (Segment ν)) (times : List ν)
    (instruction : Instruction ν) : Prop :=
  ∀ index keyframe, instruction.keyframes[index]? = some keyframe →
    ∀ value, keyframe.get? easingKey = some value ↔
      ∃ segment ∈ log, times[index]? = some segment.opens ∧
        times[index + 1]? = some segment.closes ∧ segment.easing.map Value.text = some value

/-- Where every segment with an easing takes time, marks ease their own segments. -/
theorem Instruction.ShowsMarks.easesSegments [LawfulClock ν] {instruction : Instruction ν}
    {timings : List (Timings ν)} {times : List ν}
    (shows : instruction.ShowsMarks (segments 0 timings) times)
    (bounds : ∀ time, time ∈ times ↔ Bounds (segments 0 timings) time)
    (forward : ∀ step ∈ timings, step.Forward)
    (lasts : ∀ segment ∈ segments 0 timings, segment.easing.isSome →
      segment.opens < segment.closes) :
    instruction.EasesSegments (segments 0 timings) times := by
  obtain ⟨ordered, follow⟩ := segments_follow timings
    (Scalar.atMost_self LawfulScalar.zero_proper) forward
  have settled {time : ν} (bound : Bounds (segments 0 timings) time) : Scalar.Settled time :=
    settled_of_bounds timings LawfulSums.settled_zero bound
  intro index keyframe shown value
  obtain ⟨within, rfl⟩ := List.getElem?_eq_some_iff.1 shown
  have listed := shows.keyframes.length_eq ▸ within
  have mark : instruction.keyframes[index].get? easingKey =
      (markAt (segments 0 timings) times[index]).map Value.text :=
    (shows.keyframes.get listed within).2
  have here : times[index]? = some times[index] := List.getElem?_eq_getElem listed
  have standing : Bounds (segments 0 timings) times[index] := (bounds _).1 (List.getElem_mem listed)
  rw [mark]
  constructor
  · intro carried
    obtain ⟨easing, marked, rfl⟩ := Option.map_eq_some_iff.1 carried
    obtain ⟨segment, member, eased, level⟩ := exists_of_markAt marked
    have moves := lasts segment member (eased ▸ rfl)
    have opens : segment.opens = times[index] :=
      LawfulSums.eq_of_settled (settled (.inr ⟨segment, member, .inl rfl⟩)) (settled standing) level
    have closing : Bounds (segments 0 timings) segment.closes :=
      .inr ⟨segment, member, .inr rfl⟩
    -- The next keyframe is not behind the end of the segment, and none lies within the segment.
    obtain ⟨next, there, onward, early⟩ := exists_next_of_rising shows.rising here
      ((bounds _).2 closing) (opens ▸ moves)
    have bound := (bounds next).1 (List.mem_of_getElem? there)
    have late : Scalar.atMost segment.closes next = true := by
      refine (bounds_outside follow ordered member moves bound).resolve_left fun before => ?_
      exact LawfulScalar.lt_irrefl next (Scalar.lt_of_atMost_of_lt before (opens ▸ onward))
    have closes : next = segment.closes := LawfulSums.eq_of_settled (settled bound)
      (settled closing) (Scalar.beq_of_atMost early late)
    exact ⟨segment, member, opens ▸ here, closes ▸ there, eased ▸ rfl⟩
  · rintro ⟨segment, member, opened, closed, eased⟩
    obtain ⟨easing, carried, rfl⟩ := Option.map_eq_some_iff.1 eased
    have opens : times[index] = segment.opens := Option.some.inj (here.symm.trans opened)
    have moves := lasts segment member (carried ▸ rfl)
    rw [opens, markAt_opens follow member moves carried, Option.map_some]

/-- **A keyframe carries the easing of the last segment that opens on it.** A sequence of animated
steps without easings of their own compiles to one instruction. If it takes time, its keyframes
stand at its start and where segments open and close. Where every segment with an easing takes time,
an easing marks its own segment only. -/
theorem Tree.compile_marks_segments [LawfulClock ν] (settings : Settings ν) (starting : Styles ν)
    (scope : Params ν) (steps : List (Timing ν × StyleStep ν))
    (bare : starting.get? easingKey = none)
    (unmarked : ∀ step ∈ steps, step.2.merged.get? easingKey = none)
    (forward : ∀ step ∈ steps, (step.1.resolve scope).1.Forward) :
    ∃ instruction times,
      ((animateSteps steps).compile settings starting ∅ scope).1 = [instruction] ∧
      instruction.ShowsMarks (stepSegments scope steps) times ∧
      ((∃ segment ∈ stepSegments scope steps, 0 < segment.closes) →
        ∀ time, time ∈ times ↔ Bounds (stepSegments scope steps) time) ∧
      ((∀ segment ∈ stepSegments scope steps, segment.easing.isSome →
          segment.opens < segment.closes) →
        instruction.EasesSegments (stepSegments scope steps) times) := by
  obtain ⟨stage, ends, compiled, solo⟩ := solo_compile settings scope bare unmarked forward
  rcases solo.instructions with ⟨emitted, extended⟩ | ⟨nothing, still⟩
  · have shows : (stage.timeline 0).instruction.ShowsMarks (stepSegments scope steps)
        (stage.timeline 0).risingTimes :=
      ⟨Timeline.pairwise_risingTimes solo.settled,
        Timeline.forall₂_keyframes solo.marked extended⟩
    have bounds (time : ν) :
        time ∈ (stage.timeline 0).risingTimes ↔ Bounds (stepSegments scope steps) time :=
      (Timeline.mem_risingTimes _ time).trans (solo.times time)
    exact ⟨_, _, compiled.trans emitted, shows, fun _ => bounds,
      shows.easesSegments bounds (List.forall_mem_map.2 forward)⟩
  · refine ⟨_, [], compiled.trans nothing, ⟨.nil, .nil⟩, fun ⟨segment, member, later⟩ => ?_,
      fun _ index keyframe shown => ?_⟩
    · have instant := still _ (.inr ⟨segment, member, .inr rfl⟩)
      exact absurd (instant ▸ later) (LawfulScalar.lt_irrefl 0)
    · cases shown

/-- A panel fades in and behind a pause out again, both eased, and then turns red. -/
def blinkingPanel : List (Timing Rat × StyleStep Rat) :=
  [(.resolved ⟨100, 0, some "ease-in"⟩, .ofEntries [("opacity", .number 1)]),
    (.resolved ⟨100, 50, some "ease-out"⟩, .ofEntries [("opacity", .number 0)]),
    (.millis 0, .ofEntries [("width", .number 1)]),
    (.millis 100, .ofEntries [("color", .text "red")])]

/-- The panel fades out with its easing from the end of the pause on. -/
theorem marks_segments_of_blinkingPanel :
    (.ofList [("opacity", .number 0)] : Styles Rat).get? easingKey = none ∧
      (∀ step ∈ blinkingPanel, step.2.merged.get? easingKey = none) ∧
      (∀ step ∈ blinkingPanel, (step.1.resolve ∅).1.Forward) ∧
      (∀ segment ∈ stepSegments ∅ blinkingPanel, segment.easing.isSome →
        segment.opens < segment.closes) ∧
      ∃ instruction times,
        ((Tree.animateSteps blinkingPanel).compile Settings.standard
          (.ofList [("opacity", .number 0)]) ∅ ∅).1 = [instruction] ∧
        instruction.EasesSegments (stepSegments ∅ blinkingPanel) times ∧
        ∃ keyframe ∈ instruction.keyframes,
          keyframe.get? offsetKey = some (.number (150 / instruction.duration)) ∧
          keyframe.get? easingKey = some (.text "ease-out") := by
  have bare : (.ofList [("opacity", .number 0)] : Styles Rat).get? easingKey = none := by decide
  have unmarked : ∀ step ∈ blinkingPanel, step.2.merged.get? easingKey = none := by decide
  have forward : ∀ step ∈ blinkingPanel, (step.1.resolve ∅).1.Forward := by decide +kernel
  have lasts : ∀ segment ∈ stepSegments ∅ blinkingPanel, segment.easing.isSome →
      segment.opens < segment.closes := by decide +kernel
  obtain ⟨instruction, times, compiled, shows, bounds, own⟩ := Tree.compile_marks_segments
    Settings.standard (.ofList [("opacity", .number 0)]) ∅ blinkingPanel bare unmarked forward
  have fades : ⟨150, 250, some "ease-out"⟩ ∈ stepSegments ∅ blinkingPanel := by decide +kernel
  have standing := (bounds ⟨_, fades, by decide⟩ 150).2 (.inr ⟨_, fades, .inl rfl⟩)
  obtain ⟨index, bound, here⟩ := List.mem_iff_getElem.1 standing
  have within := shows.keyframes.length_eq ▸ bound
  obtain ⟨offset, mark⟩ := shows.keyframes.get bound within
  refine ⟨bare, unmarked, forward, lasts, instruction, times, compiled, own lasts, _,
    List.getElem_mem within, ?_, ?_⟩
  · rw [← here]
    exact offset
  · refine mark.trans ?_
    rw [List.get_eq_getElem, here]
    decide +kernel

/-- A panel fades in, dims with an easing in no time, and fades out. -/
def instantDim : List (Timing Rat × StyleStep Rat) :=
  [(.millis 100, .ofEntries [("opacity", .number 1)]),
    (.expression "0ms ease-in", .ofEntries [("opacity", .number (1 / 2))]),
    (.millis 100, .ofEntries [("opacity", .number 0)])]

/-- What the panel compiles to: the easing stands on the keyframe from which it fades out. -/
def instantDimmed : Instruction Rat where
  kind := .timelineAnimation
  keyframes :=
    [.ofList [("opacity", .number 0), ("offset", .number 0)],
      .ofList [("opacity", .number (1 / 2)), ("easing", .text "ease-in"),
        ("offset", .number (1 / 2))],
      .ofList [("opacity", .number 0), ("offset", .number 1)]]
  duration := 200
  delay := 0
  easing := none

/-- The easing of the step that takes no time marks the segment behind it. -/
theorem instantStep_marks_next :
    (.ofList [("opacity", .number 0)] : Styles Rat).get? easingKey = none ∧
      (∀ step ∈ instantDim, step.2.merged.get? easingKey = none) ∧
      (∀ step ∈ instantDim, (step.1.resolve ∅).1.Forward) ∧
      stepSegments ∅ instantDim =
        [⟨0, 100, none⟩, ⟨100, 100, some "ease-in"⟩, ⟨100, 200, none⟩] ∧
      ((Tree.animateSteps instantDim).compile Settings.standard
        (.ofList [("opacity", .number 0)]) ∅ ∅).1 = [instantDimmed] ∧
      instantDimmed.ShowsMarks (stepSegments ∅ instantDim) [0, 100, 200] ∧
      ¬instantDimmed.EasesSegments (stepSegments ∅ instantDim) [0, 100, 200] := by
  have log : stepSegments ∅ instantDim =
      [⟨0, 100, none⟩, ⟨100, 100, some "ease-in"⟩, ⟨100, 200, none⟩] := by decide +kernel
  refine ⟨by decide, by decide, by decide +kernel, log, by decide +kernel, ⟨by decide, ?_⟩,
    fun eases => ?_⟩
  · rw [log]
    refine .cons ?_ (.cons ?_ (.cons ?_ .nil)) <;> decide +kernel
  · have marked : ((.ofList [("opacity", .number (1 / 2)), ("easing", .text "ease-in"),
        ("offset", .number (1 / 2))] : Styles Rat).get? easingKey) = some (.text "ease-in") := by
      decide +kernel
    obtain ⟨segment, member, _, closed, eased⟩ := (eases 1 _ rfl _).1 marked
    have instant : ∀ segment ∈ stepSegments ∅ instantDim,
        segment.easing.map (Value.text : String → Value Rat) = some (.text "ease-in") →
          segment.closes = 100 := by decide +kernel
    have same := (Option.some.inj closed).trans (instant segment member eased)
    exact absurd same (by decide)

end Storyboard
